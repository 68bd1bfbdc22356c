/-!
# Quoted text

A text is shown between single quotes, or between double quotes when it holds a single quote and no
double one. The backslash, the enclosing quote and the characters without a visible form are
escaped; everything else stands for itself.
-/

namespace ParserAlgebra.Quoted

/-- Control, format and private characters, and the separators other than the space. -/
def isHidden (c : Char) : Bool :=
  let n := c.toNat
  n < 0x20 || (0x7F ≤ n && n ≤ 0xA0) || n == 0xAD ||
  (0x600 ≤ n && n ≤ 0x605) || n == 0x61C || n == 0x6DD || n == 0x70F ||
  (0x890 ≤ n && n ≤ 0x891) || n == 0x8E2 || n == 0x1680 || n == 0x180E ||
  (0x2000 ≤ n && n ≤ 0x200F) || (0x2028 ≤ n && n ≤ 0x202F) || (0x205F ≤ n && n ≤ 0x206F) ||
  n == 0x3000 || (0xE000 ≤ n && n ≤ 0xF8FF) || n == 0xFEFF || (0xFFF0 ≤ n && n ≤ 0xFFFB) ||
  (0xFFFE ≤ n && n ≤ 0xFFFF) || n == 0x110BD || n == 0x110CD || (0x13430 ≤ n && n ≤ 0x13438) ||
  (0x1BCA0 ≤ n && n ≤ 0x1BCA3) || (0x1D173 ≤ n && n ≤ 0x1D17A) || (0xE0000 ≤ n && n ≤ 0xE00FF) ||
  0xE01F0 ≤ n

/-- The low `width` hexadecimal digits of a number, in lower case. -/
def hexDigits : (width : Nat) → Nat → List Char
  | 0, _ => []
  | w + 1, n => hexDigits w (n / 16) ++ [Nat.digitChar (n % 16)]

/-- A hidden character by its code, in two, four or eight digits. -/
def codeEscape (c : Char) : List Char :=
  let n := c.toNat
  if n < 0x100 then '\\' :: 'x' :: hexDigits 2 n
  else if n < 0x10000 then '\\' :: 'u' :: hexDigits 4 n
  else '\\' :: 'U' :: hexDigits 8 n

/-- One character between two quotes `q`. -/
def escape (q c : Char) : List Char :=
  if c = q ∨ c = '\\' then ['\\', c]
  else if c = '\n' then ['\\', 'n']
  else if c = '\r' then ['\\', 'r']
  else if c = '\t' then ['\\', 't']
  else if isHidden c then codeEscape c
  else [c]

/-- Double quotes enclose a text with a single quote and no double quote. -/
def enclosing (s : List Char) : Char :=
  if s.contains '\x27' && !s.contains '"' then '"' else '\x27'

def encode (s : List Char) : List Char :=
  let q := enclosing s
  q :: (s.flatMap (escape q) ++ [q])

end ParserAlgebra.Quoted

namespace ParserAlgebra

def quoted (s : String) : String := String.ofList (Quoted.encode s.toList)

end ParserAlgebra
