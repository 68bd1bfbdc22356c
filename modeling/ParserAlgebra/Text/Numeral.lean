import ParserAlgebra.Text.Blank

/-!
# Written integers

An integer is written as an optional sign and digits, with single underscores between digits, and
may stand between blanks. The decimal digits may be of any script; beyond base ten the letters
follow, in either case. A literal of a base two, eight or sixteen may begin with a mark of its base,
and base zero stands for the one that the mark tells, or for ten.

A literal of more than `digitLimit` digits is refused before anything that follows the digits is
looked at, unless its base is a power of two, and a number of more decimal digits is not written
(`Numeral.write?`).
-/

namespace ParserAlgebra.Numeral

/-- The zeros of the scripts whose decimal digits stand in ten consecutive places. -/
def zeros : List Nat :=
  [0x30, 0x660, 0x6F0, 0x7C0, 0x966, 0x9E6, 0xA66, 0xAE6, 0xB66, 0xBE6, 0xC66, 0xCE6, 0xD66, 0xDE6,
   0xE50, 0xED0, 0xF20, 0x1040, 0x1090, 0x17E0, 0x1810, 0x1946, 0x19D0, 0x1A80, 0x1A90, 0x1B50,
   0x1BB0, 0x1C40, 0x1C50, 0xA620, 0xA8D0, 0xA900, 0xA9D0, 0xA9F0, 0xAA50, 0xABF0, 0xFF10, 0x104A0,
   0x10D30, 0x11066, 0x110F0, 0x11136, 0x111D0, 0x112F0, 0x11450, 0x114D0, 0x11650, 0x116C0,
   0x11730, 0x118E0, 0x11950, 0x11C50, 0x11D50, 0x11DA0, 0x16A60, 0x16AC0, 0x16B50, 0x1D7CE,
   0x1D7D8, 0x1D7E2, 0x1D7EC, 0x1D7F6, 0x1E140, 0x1E2F0, 0x1E950, 0x1FBF0]

def decimal? (c : Char) : Option Nat :=
  let n := c.toNat
  (zeros.find? fun z => z ≤ n && n < z + 10).map (n - ·)

/-- The value of a letter that stands for a digit. -/
def letter? (c : Char) : Option Nat :=
  let n := c.toLower.toNat
  if 0x61 ≤ n ∧ n ≤ 0x7A then some (n - 0x61 + 10) else none

def digit? (base : Nat) (c : Char) : Option Nat :=
  (decimal? c <|> letter? c).filter (· < base)

/-- The blanks that may surround a numeral: all but the information separators. -/
def isPadding (c : Char) : Bool :=
  isBlank c && !(0x1C ≤ c.toNat && c.toNat ≤ 0x1F)

def digitLimit : Nat := 4300

/-- The least number that has more than `digitLimit` decimal digits. -/
def writeLimit : Nat := Nat.pow 10 digitLimit

/-- Why a text is not an integer. -/
inductive Flaw where
  | malformed
  | tooLong (digits : Nat)
  deriving DecidableEq, Repr

/-- What a run of digits and underscores at the head of a text holds. -/
structure Run where
  value : Nat
  digits : Nat
  rest : List Char

/-- Reads digits with single underscores between them; `after` tells that the last character read
was a digit. Two underscores in a row and an underscore at either end are refused. -/
def readRun (base : Nat) (after : Bool) (value digits : Nat) : List Char → Option Run
  | [] => if after then some ⟨value, digits, []⟩ else none
  | '_' :: r => if after then readRun base false value digits r else none
  | c :: r =>
    match digit? base c with
    | some d => readRun base true (value * base + d) (digits + 1) r
    | none => if after then some ⟨value, digits, c :: r⟩ else none

/-- The sign at the head of a text and what follows it. -/
def splitSign : List Char → Bool × List Char
  | '+' :: r => (false, r)
  | '-' :: r => (true, r)
  | r => (false, r)

/-- The base that the letter after a zero marks. -/
def markedBase? (c : Char) : Option Nat :=
  [('x', 16), ('o', 8), ('b', 2)].lookup c.toLower

/-- The base of a literal and its digits, when it is to be read in the given base. A mark is taken
off with one underscore after it. -/
def splitBase (base : Nat) : List Char → Nat × List Char
  | '0' :: c :: r =>
    match markedBase? c with
    | some b =>
      if base = 0 ∨ base = b then
        (b, match r with
          | '_' :: r => r
          | r => r)
      else (base, '0' :: c :: r)
    | none => (if base = 0 then 10 else base, '0' :: c :: r)
  | r => (if base = 0 then 10 else base, r)

/-- Reads a whole text as an integer in a base. In base zero a literal without a mark that begins
with a zero is zero. -/
def readIn (base : Nat) (s : List Char) : Except Flaw Int :=
  let (negative, body) := splitSign (trimBoth isPadding s)
  let (b, body) := splitBase base body
  match readRun b false 0 0 body with
  | none => .error .malformed
  | some r =>
    if digitLimit < r.digits ∧ ¬ [2, 4, 8, 16, 32].contains b then .error (.tooLong r.digits)
    else if base = 0 ∧ b = 10 ∧ body.head? = some '0' ∧ r.value ≠ 0 then .error .malformed
    else if r.rest.isEmpty then .ok (if negative then -(r.value : Int) else r.value)
    else .error .malformed

def read (s : List Char) : Except Flaw Int := readIn 10 s

/-- What is said of a text that has the given flaw in a base; at most 200 characters of its shown
form are told. -/
def Flaw.message (base : Nat) (shown : String) : Flaw → String
  | .malformed =>
    s!"invalid literal for int() with base {base}: " ++ String.ofList (shown.toList.take 200)
  | .tooLong n =>
    s!"Exceeds the limit ({digitLimit} digits) for integer string conversion: value has {n} " ++
    "digits; use sys.set_int_max_str_digits() to increase the limit"

/-- An integer in decimal digits, if they are not too many. -/
def write? (n : Int) : Option String :=
  if n.natAbs < writeLimit then some (toString n) else none

end ParserAlgebra.Numeral
