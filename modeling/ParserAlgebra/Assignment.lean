import ParserAlgebra.Parser.Build
import ParserAlgebra.Parser.Report
import ParserAlgebra.Value.Present

/-!
# Assignments

A text of assignments is a list of `name = value` with blanks between the parts. Reading it gives
the values under their names, each name at the place of its first assignment with the value of its
last (`Assignment.readAll`). Where the list ends early the assignment that stands there is read once
more, and what comes of this is the answer: for a text that is not such a list, the error of the first
assignment that cannot be read.
-/

namespace ParserAlgebra.Assignment

/-- The union of the errors of an assignment. -/
def failed : Kind := .mk "AssignmentError" 0 [.errorUnion]

/-- The errors that the union wraps. -/
def absorbed : List Kind := [.takeError, .wordError, .valueError]

def registry {ω : Type} : Registry ω :=
  absorbed.foldl (fun r k => r.insert k failed .wrapping) .empty

/-- The functions that reading assignments needs. -/
inductive Function where
  | assignment
  | number
  deriving DecidableEq

instance : HostObject Function where
  kind _ := .function
  shown _ := "<function>"
  present _ := .null
  name?
    | .assignment => some "parse"
    | .number => some "<lambda>"

abbrev Act := Action Function Unit

/-- A name, the sign and the blanks after each of them. -/
def name : Act (Parser Function) := do
  let w ← Parser.mkAfter (← Parser.mkConvert .word (.kind failed)) .whitespace
  Parser.mkAfter (← Parser.mkAfter w (.take "=")) .whitespace

/-- A word that is a number and the blanks after it. -/
def value : Act (Parser Function) := do
  let n ← Parser.mkRefine (← Parser.mkConvert .word (.kind failed)) .number (.kind .valueError)
  Parser.mkAfter n .whitespace

def several : Parser Function := .many (.function "Assignment" (.kind failed) .assignment)

def spanText : Value Function → String
  | .span s => s.text
  | v => v.shown

def readOne (run : Runner Function Unit) : Act (Outcome Function) := do
  let n ← run (← name)
  if ← n.succeeded then
    let v ← run (← value)
    if ← v.succeeded then
      let name := spanText (← n.value)
      return .ok (.tuple [.str name, ← v.value])
    else return v
  else return n

def host : Host Function Unit where
  call _ f v :=
    match f with
    | .number => do return .int (← (Value.str (spanText v) : Value Function).toInteger)
    | .assignment => return v
  step run f :=
    match f with
    | .assignment => do return (← readOne run).toValue
    | .number => return .none
  force _ _ := return several
  operand f := .other (.host f)

/-- Gives a name its value; a name that is there keeps its place. -/
def assign (name : String) (value : Int) : List (String × Int) → List (String × Int)
  | [] => [(name, value)]
  | (n, v) :: rest => if n = name then (n, value) :: rest else (n, v) :: assign name value rest

def pair? : Value Function → Option (String × Int)
  | .tuple [.str n, .int v] => some (n, v)
  | _ => none

/-- The values of a list of assignments under their names. -/
def collect (items : List (Value Function)) : List (String × Int) :=
  (items.filterMap pair?).foldl (fun d (n, v) => assign n v d) []

inductive Result where
  | ok (values : List (String × Int))
  /-- The assignment that was read once more. -/
  | single (assignment : Value Function)
  | failed (res : Outcome Function)

/-- Reads the assignments that the cursor is at, up to the end of the input. -/
def read (cb : Callbacks Function Unit) : Act Result := do
  let _ ← Parser.whitespace.run cb
  let items ← (← several.run cb).value
  if ← (← Parser.eof.run cb).succeeded then return .ok (collect items.entries)
  else
    let res ← readOne fun p => p.run cb
    if ← res.succeeded then return .single (← res.value) else return .failed res

/-- Reads a text of assignments with given settings. -/
def readAll (settings : Settings Function) (text : String) : Answer Function Result :=
  let cb := host.callbacks (text.length + 1) 1
  (read cb ⟨registry, settings, .warning⟩ ⟨.ofList text.toList, [], ()⟩).1

def Result.fields? (source : List Char) : Result → Except Fault Fields
  | ok values => do
    let pairs ← values.mapM fun (n, v) => do return Datum.list [.text n, ← Datum.ofInt? v]
    return [("ok", .field "dict" (.list pairs))]
  | single _ => .ok [("ok", .field "object" (.text "Assignment"))]
  | failed res => do
    let error ← (← res.error).present?
    let place ← (← res.pos).present?
    return [("err", error), ("at", place), ("describe", .text (← res.describe source))]

def answer (text : String) : Fields :=
  match readAll {} text with
  | .returned r =>
    match r.fields? text.toList with
    | .ok fields => fields
    | .error f => (f.exception : Value Function).raisedFields
  | .raised e => e.raisedFields
  | .exhausted => []

def shown (values : List (String × Int)) : String :=
  let items := values.map fun (n, v) => quoted n ++ ": " ++ toString v
  "\x7b" ++ ", ".intercalate items ++ "\x7d"

def shownOne : Value Function → String
  | .tuple [name, value] => "Assignment(name=" ++ name.shown ++ ", value=" ++ value.shown ++ ")"
  | v => v.shown

def sample : String := "width = 80  height = 24"

def printed (text : String) : String :=
  match readAll {} text with
  | .returned (.ok values) => "Parsed: " ++ shown values ++ "\n"
  | .returned (.single assignment) => "Parsed: " ++ shownOne assignment ++ "\n"
  | .returned (.failed res) =>
    "Parsing Failed: " ++ (res.describe text.toList).toOption.getD "" ++ "\n"
  | .raised e => e.shown ++ "\n"
  | .exhausted => ""

def printedFor (words : List String) : String :=
  let text := " ".intercalate words
  printed (if text.isEmpty then sample else text)

end ParserAlgebra.Assignment
