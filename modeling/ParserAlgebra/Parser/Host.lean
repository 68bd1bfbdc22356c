import ParserAlgebra.Action
import ParserAlgebra.Parser.Basic

/-!
# The host program

Parsers call into the program that uses them: they apply its functions to values, run its parsing
functions at the cursor, and ask it for the parsers it defers. `Callbacks` holds these calls. The
last two fields belong to the engine: how a parser that was made during the run is run in its turn,
and how many rounds a repetition may take.
-/

namespace ParserAlgebra

/-- What can stand where a parser is expected. -/
inductive Operand (ω : Type) where
  | parser (p : Parser ω)
  | function (name : String) (declares : Declared ω) (step : ω)
  /-- A class that may have a parsing function. -/
  | ofClass (name : String) (declares : Declared ω) (step : Option ω)
  | other (v : Value ω)

structure Callbacks (ω σ : Type) where
  /-- A function applied to a value. -/
  call : ω → Value ω → Action ω σ (Value ω)
  /-- A parsing function at the cursor; what it returns need not be an outcome. -/
  step : ω → Action ω σ (Value ω)
  /-- The parser that a deferred parser stands for. -/
  force : ω → Action ω σ (Parser ω)
  /-- What an object of the host program is as a parser. -/
  operand : ω → Operand ω
  resume : Parser ω → Action ω σ (Outcome ω)
  rounds : Nat

namespace Declared

variable {ω : Type}

variable [HostObject ω]

/-- A declaration that is given by mistake as a value that counts as false is no declaration. -/
def truthy : Declared ω → Except Fault Bool
  | kind _ => .ok true
  | plain v => v.truthy

/-- The declaration `override`, if there is one. -/
def overriddenBy (d : Declared ω) : Option (Declared ω) → Except Fault (Declared ω)
  | none => .ok d
  | some e => do return if ← e.truthy then e else d

end Declared

namespace Operand

variable {ω : Type} [HostObject ω]

/-- Adapts an operand to a parser; a declaration given here wins over the operand's own, except over
that of a parser. -/
def toParser (o : Operand ω) (override : Option (Declared ω)) : Except Fault (Parser ω) :=
  match o with
  | parser p => .ok p
  | function name d step => do return .function name (← d.overriddenBy override) step
  | ofClass name d (some step) => do
    return .function (Parser.orParse name) (← d.overriddenBy override) step
  | ofClass name _ none => .error (.noParseFunction name)
  | other v => do .error (.notAParser (← v.shown?))

/-- What a value is as a parser, given what the objects of the host program are. -/
def ofValue (operand : ω → Operand ω) : Value ω → Operand ω
  | .host o => operand o
  | .kind k => .ofClass k.name .undeclared none
  | v => .other v

end Operand

end ParserAlgebra
