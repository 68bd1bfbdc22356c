import ParserAlgebra.Text.Quoted
import ParserAlgebra.Value.Basic

/-!
# Values as text

A value has a *shown* form, which tells its kind apart (`Value.shown?`), and a *plain* form, in
which a text stands for itself and an exception for its message (`Value.text?`). A value has neither
form if it holds an integer that is too long to be written, or if an attribute that the form tells
was never set.
-/

namespace ParserAlgebra

/-- How the values of a kind are shown. The bounds of a span are numbers, whose two forms are
one. -/
inductive Showing where
  | plain
  | span | success | failure | code
  | union
  | exception
  | bare
  deriving DecidableEq, Repr

namespace Showing

def table : List (Kind × Showing) :=
  [(.int, plain), (.str, plain), (.list, plain), (.tuple, plain), (.span, span), (.ok, success),
   (.err, failure), (.code, code), (.errorUnion, union), (.baseException, exception)]

def ofKind (k : Kind) : Showing := (k.nearest? table).getD bare

end Showing

/-- The rules by which the plain form of an object is worded. -/
inductive Wording where
  | plain
  | span
  | endOfInput | word | literal | alternatives | leftover
  | union
  | key
  | arguments
  | shown
  deriving DecidableEq, Repr

namespace Wording

/-- The kinds that bring a wording of their own. -/
def table : List (Kind × Wording) :=
  [(.str, plain), (.span, span), (.endOfInput, endOfInput), (.wordError, word),
   (.takeError, literal), (.noAlternatives, alternatives), (.expectedEndOfInput, leftover),
   (.errorUnion, union), (.keyError, key), (.baseException, arguments)]

def ofKind (k : Kind) : Wording := (k.nearest? table).getD shown

end Wording

namespace Value

variable {ω : Type}

def word (b : Bool) : String := if b then "True" else "False"

def listing (items : List String) : String := ", ".intercalate items

/-- A tuple of one has a comma, to tell it from a value in brackets. -/
def showTuple : List String → String
  | [s] => s!"({s},)"
  | items => s!"({listing items})"

/-- Without arguments nothing is said, one argument is said as it is, more are shown in brackets. -/
def ofArguments (shown : List String) : List String → String
  | [] => ""
  | [plain] => plain
  | _ => s!"({listing shown})"

variable [HostObject ω]

mutual
def shown? : Value ω → Except Fault String
  | none => .ok "None"
  | bool b => .ok (word b)
  | int n => digits? n
  | str s => .ok (quoted s)
  | list items => do return "[" ++ listing (← shownAll? items) ++ "]"
  | tuple items => do return showTuple (← shownAll? items)
  | span s => .ok s!"Span({quoted s.text}, {s.start}..{s.stop})"
  | mismatch m => .ok s!"<TakeFailure.{m.name}: '{m.reason}'>"
  | kind k => .ok k.shown
  | ok v => do return Kind.ok.name ++ "(value=" ++ (← shown? v) ++ ")"
  | err e p => do
    return Kind.err.name ++ "(error=" ++ (← shown? e) ++ ", pos=" ++ (← shown? p) ++ ")"
  | object k held attributes _ _ =>
    let at? (a : Attribute) := shownAt? a ((attributes.unset k a).map fun _ => "None") attributes
    match Showing.ofKind k with
    | .plain => shown? held
    | .span => do
      let piece ← at? .text
      let start ← at? .start
      return "Span(" ++ piece ++ ", " ++ start ++ ".." ++ (← at? .stop) ++ ")"
    | .success => do return k.name ++ "(value=" ++ (← at? .value) ++ ")"
    | .failure => do
      return k.name ++ "(error=" ++ (← at? .error) ++ ", pos=" ++ (← at? .pos) ++ ")"
    | .code => do return Kind.code.name ++ "(" ++ (← at? .number) ++ ")"
    | .union => do return k.name ++ "(" ++ (← at? .cause) ++ ")"
    | .exception => do return k.lastName ++ "(" ++ listing (← shownArguments? attributes) ++ ")"
    | .bare => .ok s!"<{k.path} object>"
  | host o => .ok (HostObject.shown o)
def shownAll? : List (Value ω) → Except Fault (List String)
  | [] => .ok []
  | v :: vs => do
    let s ← shown? v
    return s :: (← shownAll? vs)
/-- The shown form of an attribute, or of what stands for one that is not set. -/
def shownAt? (a : Attribute) (unset : Except Fault String) : Attributes ω → Except Fault String
  | .nil => unset
  | .cons b v rest => if b = a then shown? v else shownAt? a unset rest
def shownArguments? : Attributes ω → Except Fault (List String)
  | .nil => .ok []
  | .cons a v rest =>
    if a = .arguments then
      match v with
      | tuple items => shownAll? items
      | _ => .ok []
    else shownArguments? rest
end

/-- The shown form, or nothing if there is none. -/
def shown (v : Value ω) : String := v.shown?.toOption.getD ""

mutual
def text? : Value ω → Except Fault String
  | str s => .ok s
  | span s => .ok s.text
  | mismatch m => .ok s!"TakeFailure.{m.name}"
  | object k held attributes mark chained =>
    let shownOf (a : Attribute) :=
      shownAt? a ((attributes.unset k a).map fun _ => "None") attributes
    match Wording.ofKind k with
    | .plain => text? held
    | .span =>
      match attributes.get? .text with
      | some (str s) => .ok s
      | some v => .error (.misused (.formNotText v.kindOf.label))
      | Option.none => (attributes.unset k .text).map fun _ => ""
    | .endOfInput => .ok "unexpected end of input"
    | .word => .ok "expected a word, found no characters"
    | .literal => do
      let literal ← shownOf .expected
      let reason ← reasonAt? ((attributes.unset k .reason).map fun _ => "") attributes
      return "expected " ++ literal ++ ": " ++ reason
    | .alternatives => .ok "no alternatives"
    | .leftover => do return "expected end of input, found " ++ (← shownOf .found)
    | .union => textAt? .cause ((attributes.unset k .cause).map fun _ => "") attributes
    | .key => do
      let shown ← shownArguments? attributes
      return ofArguments shown shown
    | .arguments => textOfArguments? attributes
    | .shown => shown? (object k held attributes mark chained)
  | host o => .ok (HostObject.text o)
  | v => shown? v
/-- The plain form of an attribute, or what stands for one that is not set. -/
def textAt? (a : Attribute) (unset : Except Fault String) : Attributes ω → Except Fault String
  | .nil => unset
  | .cons b v rest => if b = a then text? v else textAt? a unset rest
/-- What the arguments of an exception say. -/
def textOfArguments? : Attributes ω → Except Fault String
  | .nil => .ok ""
  | .cons a v rest =>
    if a = .arguments then
      match v with
      | tuple [] => .ok ""
      | tuple [v] => text? v
      | v => shown? v
    else textOfArguments? rest
/-- The reason that a failure gives for its mismatch. -/
def reasonAt? (unset : Except Fault String) : Attributes ω → Except Fault String
  | .nil => unset
  | .cons a v rest => if a = .reason then reason? v else reasonAt? unset rest
/-- The plain form of the value of a success or of a mismatch; anything else gives no reason. -/
def reason? : Value ω → Except Fault String
  | mismatch m => .ok m.reason
  | ok v => text? v
  | object k _ attributes _ _ =>
    textAt? .value ((attributes.unset k .value).map fun _ => "") attributes
  | v => .error (v.lacks Attribute.value.name)
end

end Value

end ParserAlgebra
