import ParserAlgebra.Kind.Standard
import ParserAlgebra.Misuse
import ParserAlgebra.Text.Quoted
import ParserAlgebra.Text.Numeral

/-!
# Faults

A fault is a misuse that the library itself reports by raising an exception, as opposed to the
failure of a parser, which is an ordinary outcome. Each fault is a cause; `Fault.kind` and
`Fault.message` say which exception it is raised as.
-/

namespace ParserAlgebra

/-- What was asked for an attribute that it does not have. -/
inductive Holder where
  | aValue (kind : String)
  /-- A value of the named kind, which keeps a place for the attribute. -/
  | aPlace (kind : String)
  | aClass (name : String)
  /-- Of which nothing is said. -/
  | unsaid
  deriving DecidableEq, Repr

namespace Holder

/-- What is said of it when it lacks an attribute. -/
def lacking : Holder → String → String
  | aValue kind, a => s!"'{clip 50 kind}' object has no attribute '{a}'"
  | aPlace kind, a => s!"'{clip 200 kind}' object has no attribute '{a}'"
  | aClass name, a => s!"type object '{clip 50 name}' has no attribute '{a}'"
  | unsaid, a => a

end Holder

inductive Fault where
  | missingConversion (source target : String) (context : Option String)
  /-- A parser declared as infallible failed with the shown error. -/
  | infallibleFailed (parser error : String)
  /-- A repeated parser succeeded at the place where it began. -/
  | notAdvancing (pos : String)
  | infallibleSource
  | unwrapped (error : String)
  | notAnOutcome (parser result : String)
  | notAParser (shown : String)
  | noParseFunction (name : String)
  | notParsable (shown : String)
  | uninstantiable
  | unknownSetting (name : String)
  /-- Numbers are told as they were written. -/
  | invalidSpan (start stop : String) (length : Nat)
  | outsideInput (pos : String) (length : Nat)
  | outsideMark (mark : String) (length : Nat)
  | backwards
  | pastEnd (count pos : String)
  /-- What is no numeral is shown. -/
  | notANumeral (base : Nat) (shown : String) (flaw : Numeral.Flaw)
  | badBase
  | tooManyDigits
  | settingNotANumeral (name raw : String)
  | unknownName (name : String)
  | nothingSaved
  /-- There is no item at an index of what the text names. -/
  | outOfRange (held : String)
  | misused (m : Misuse)
  | noAttribute (holder : Holder) (attributeName : String)
  | frozen (attributeName : String)
  | badKindName
  /-- A number is too large to count anything. -/
  | uncountable
  deriving DecidableEq, Repr

namespace Fault

def kind : Fault → Kind
  | missingConversion .. => .conversionError
  | infallibleFailed .. => .infallibleViolation
  | notAdvancing .. => .nonAdvancingParser
  | unwrapped .. => .unwrapFailed
  | infallibleSource | invalidSpan .. | outsideInput .. | outsideMark .. | backwards | pastEnd ..
  | notANumeral .. | badBase | tooManyDigits | settingNotANumeral .. | badKindName => .valueError
  | notAnOutcome .. | notAParser .. | noParseFunction .. | notParsable .. | uninstantiable
  | unknownSetting .. | misused .. => .typeError
  | unknownName .. => .keyError
  | nothingSaved | outOfRange .. => .indexError
  | noAttribute .. => .attributeError
  | frozen .. => .frozenInstanceError
  | uncountable => .overflowError

def message : Fault → String
  | missingConversion source target context =>
    let place := (context.map (" in " ++ ·)).getD ""
    s!"no conversion from {source} to {target}{place}; " ++
      "declare one with register_conversion() or @absorbs()"
  | infallibleFailed parser error => s!"{parser} is declared Infallible but failed with {error}"
  | notAdvancing pos => s!"many: parser succeeded without consuming input at position {pos}"
  | infallibleSource => "Infallible already converts into every type"
  | unwrapped error => s!"parse failed: {error}"
  | notAnOutcome parser result =>
    s!"{parser} returned {result}; parsers must return Ok or Err"
  | notAParser shown => s!"{shown} is not a parser"
  | noParseFunction name => s!"{name} has no parse(cursor) function"
  | notParsable shown => s!"{shown} does not define parse(cursor)"
  | uninstantiable => "Infallible cannot be instantiated"
  | unknownSetting name => s!"Settings.__init__() got an unexpected keyword argument '{name}'"
  | invalidSpan start stop length =>
    s!"invalid span {start}..{stop} over input of length {length}"
  | outsideInput pos length => s!"position {pos} is outside the input (length {length})"
  | outsideMark mark length => s!"mark {mark} is outside the input (length {length})"
  | backwards => "cannot advance by a negative amount, use restore()"
  | pastEnd count pos => s!"cannot advance {count} past end of input at position {pos}"
  | notANumeral base shown flaw => flaw.message base shown
  | badBase => "int() base must be >= 2 and <= 36, or 0"
  | tooManyDigits =>
    s!"Exceeds the limit ({Numeral.digitLimit} digits) for integer string conversion; " ++
      "use sys.set_int_max_str_digits() to increase the limit"
  | settingNotANumeral name raw => s!"{name} must be an integer, got {quoted raw}"
  | unknownName name => name
  | nothingSaved => "pop from empty list"
  | outOfRange held => s!"{held} index out of range"
  | misused m => m.message
  | noAttribute holder attributeName => holder.lacking attributeName
  | frozen attributeName => s!"cannot assign to field '{attributeName}'"
  | badKindName => "type name must not contain null characters"
  | uncountable => "cannot fit 'int' into an index-sized integer"

end Fault

/-- An integer in decimal digits, if they are not too many. -/
def digits? (n : Int) : Except Fault String :=
  match Numeral.write? n with
  | some s => .ok s
  | none => .error .tooManyDigits

end ParserAlgebra
