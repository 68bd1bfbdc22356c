import ParserAlgebra.Parser.Build

/-!
# Operators between parsers

Between two operands of which one is a parser stand the signs of sequence: `a & b` keeps both values,
`a < b` the first, `a > b` the second; `a | b` is a choice. A sign is read by its left operand if that is a
parser. The two comparisons are also read by the right operand, as the opposite sign with the operands
exchanged. What each sign is for can also be called by a name, and then both operands are adapted, in their
order (`Sign.call`).
-/

namespace ParserAlgebra

inductive Sign where
  | ampersand | bar | less | greater
  deriving DecidableEq, Repr

namespace Sign

def text : Sign → String
  | ampersand => "&"
  | bar => "|"
  | less => "<"
  | greater => ">"

/-- The sign as the right operand reads it, if it does. -/
def opposite? : Sign → Option Sign
  | less => some greater
  | greater => some less
  | _ => none

/-- Neither of two operands of these kinds reads the sign. -/
def unread (s : Sign) (a b : Kind) : Misuse :=
  match s with
  | ampersand | bar => .unsupported s.text a.label b.label
  | less | greater => .unordered s.text a.label b.label

variable {ω σ : Type} [HostObject ω]

/-- What a sign makes of two parsers. -/
def join : Sign → Parser ω → Parser ω → Action ω σ (Parser ω)
  | ampersand => Parser.mkSeq
  | bar => Parser.mkAlt
  | less => Parser.mkAfter
  | greater => Parser.mkBefore

variable (operand : ω → Operand ω)

/-- The function by which a sign can also be called. -/
def call (s : Sign) (a b : Value ω) : Action ω σ (Parser ω) := do
  let p ← (Operand.ofValue operand a).toParser none
  s.join p (← (Operand.ofValue operand b).toParser none)

/-- What stands between two operands as a sign, read by the one or the other. -/
def apply (s : Sign) (a b : Value ω) : Action ω σ (Parser ω) := do
  match Operand.ofValue operand a, Operand.ofValue operand b, s.opposite? with
  | .parser p, right, _ => s.join p (← right.toParser none)
  | left, .parser q, some t => t.join q (← left.toParser none)
  | _, _, _ => Action.fault (.misused (s.unread a.kindOf b.kindOf))

end Sign

end ParserAlgebra
