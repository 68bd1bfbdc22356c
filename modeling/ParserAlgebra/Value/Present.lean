import ParserAlgebra.Value.Text

/-!
# Values as data

What an answer tells of a value (`Value.present?`): plain data as it is, anything else under a name
that tells what it is. An object counts as the first of the listed kinds that it is of, and an
exception is told with its message and with what it holds. A value is not told if it has no text, or
if an attribute that is to be told was never set.
-/

namespace ParserAlgebra

namespace Datum

/-- An integer as data; one that is too large for a number is told by its text. -/
def ofNumber? (n : Int) (text? : Except Fault String) : Except Fault Datum :=
  if n.natAbs < numberLimit then .ok (number n)
  else do return field "big" (text (← text?))

def ofInt? (n : Int) : Except Fault Datum := ofNumber? n (digits? n)

end Datum

/-- What is told of an object. -/
inductive Presentation where
  | plain
  | span | success | failure | code
  | union
  | literal
  | leftover
  | exception
  | bare
  deriving DecidableEq, Repr

namespace Presentation

/-- The kinds in the order in which they count. -/
def table : List (Kind × Presentation) :=
  [(.str, plain), (.int, plain), (.list, plain), (.span, span), (.tuple, plain), (.ok, success),
   (.err, failure), (.code, code), (.errorUnion, union), (.takeError, literal),
   (.expectedEndOfInput, leftover), (.baseException, exception)]

def ofKind (k : Kind) : Presentation :=
  ((table.find? fun e => k.isA e.1).map Prod.snd).getD bare

end Presentation

namespace Value

variable {ω : Type} [HostObject ω]

/-- The name of the mismatch that is given as a reason. -/
def reasonName? : Value ω → Except Fault String
  | mismatch m => .ok m.name
  | v => .error (v.lacks "name")

mutual
def present? : Value ω → Except Fault Datum
  | none => .ok .null
  | bool b => .ok (.flag b)
  | int n => Datum.ofInt? n
  | str s => .ok (.text s)
  | list items => do return .list (← presentAll? items)
  | tuple items => do return .field "tuple" (.list (← presentAll? items))
  | span s =>
    .ok (.fields [("span", .list [.number s.start, .number s.stop]), ("text", .text s.text)])
  | mismatch m => .ok (.field "kind" (.text m.name))
  | kind k => .ok (.field "type" (.text k.name))
  | ok v => do return .field "ok" (← present? v)
  | err e p => do
    let error ← present? e
    return .fields [("err", error), ("at", ← present? p)]
  | object k held attributes mark chained =>
    let at? (a : Attribute) :=
      presentAt? a ((attributes.unset k a).map fun _ => .null) attributes
    let told (entries : Except Fault (List (String × Datum))) : Except Fault Datum := do
      let message ← (object k held attributes mark chained).text?
      let shown ← (object k held attributes mark chained).shown?
      let chained := (chained.map fun c => Datum.text c.name).getD .null
      return .fields ([("exc", .text k.name), ("str", .text message), ("repr", .text shown),
        ("chained", chained)] ++ (← entries))
    let read (a : Attribute) := attributes.read k a
    match Presentation.ofKind k with
    | .plain =>
      match held with
      | int n => Datum.ofNumber? n (object k held attributes mark chained).text?
      | held => present? held
    | .span => do
      let start ← at? .start
      let stop ← at? .stop
      return .fields [("span", .list [start, stop]), ("text", ← at? .text)]
    | .success => do return .field "ok" (← at? .value)
    | .failure => do
      let error ← at? .error
      return .fields [("err", error), ("at", ← at? .pos)]
    | .code => do return .field "code" (← at? .number)
    | .union => told do
      let cause ← at? .cause
      return [("cause", cause), ("variant", .text (← read .cause).kindOf.name)]
    | .literal => told do
      let literal ← at? .expected
      return [("expected", literal), ("kind", .text (← reasonName? (← read .reason)))]
    | .leftover => told do return [("found", ← at? .found)]
    | .exception => told do return [("args", ← presentArguments? attributes)]
    | .bare => .ok (.field "object" (.text k.name))
  | host o => .ok (HostObject.present o)
def presentAll? : List (Value ω) → Except Fault (List Datum)
  | [] => .ok []
  | v :: vs => do
    let d ← present? v
    return d :: (← presentAll? vs)
def presentAt? (a : Attribute) (unset : Except Fault Datum) : Attributes ω → Except Fault Datum
  | .nil => unset
  | .cons b v rest => if b = a then present? v else presentAt? a unset rest
def presentArguments? : Attributes ω → Except Fault Datum
  | .nil => .ok (.list [])
  | .cons a v rest =>
    if a = .arguments then
      match v with
      | tuple items => do return .list (← presentAll? items)
      | _ => .ok (.list [])
    else presentArguments? rest
end

end Value

/-! ## Exceptions -/

/-- The ends of texts that are the library's own. -/
def ownEnds : List String :=
  ["; parsers must return Ok or Err", " has no parse(cursor) function", " is not a parser",
   " does not define parse(cursor)", "Infallible cannot be instantiated"]

/-- A piece of texts that are the library's own. -/
def ownPiece : String := "Settings.__init__() got an unexpected keyword argument"

def holds (text piece : List Char) : Bool :=
  piece.isPrefixOf text ||
    match text with
    | [] => false
    | _ :: rest => holds rest piece

/-- Whether a text is one of the library's own. -/
def isOwn (text : String) : Bool :=
  (ownEnds.any fun t => t.toList.isSuffixOf text.toList) || holds text.toList ownPiece.toList

/-- The exception that ended a step, with its text. The texts of the language's own complaints are
left out. -/
def namedFields (k : Kind) (text : String) : Fields :=
  let silent := (k = .typeError || k = .attributeError) && !isOwn text
  ("error", .text k.name) :: if silent then [] else [("message", .text text)]

/-- The exception that ended a step. One that has no text is itself a complaint. -/
def Value.raisedFields {ω : Type} [HostObject ω] (e : Value ω) : Fields :=
  match e.text? with
  | .ok text => namedFields e.kindOf text
  | .error f => namedFields f.kind f.message

end ParserAlgebra
