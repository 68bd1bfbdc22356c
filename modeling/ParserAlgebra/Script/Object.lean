import ParserAlgebra.Parser.Report
import ParserAlgebra.Script.Expr
import ParserAlgebra.Script.IndexedClass

/-!
# The objects of a script

What a script makes besides plain values: parsers, functions, parsing functions, classes with a
parsing function, classes with an index, and the cursor when a class is called with it. These are
the objects of the host program that a script is.
-/

namespace ParserAlgebra.Script

variable {ω : Type}

/-- A parsing function with the parsers that it holds. -/
inductive Routine (ω : Type) where
  | ok (value : ValueExpr)
  | err (error pos : ValueExpr)
  | bad (value : ValueExpr)
  | advance (n : ValueExpr)
  | take (n : ValueExpr)
  | tryTake (n : ValueExpr)
  | goto (mark : ValueExpr)
  | eatErr (n error pos : ValueExpr)
  | oneOf (chars : String)
  | place
  | raise (error : ValueExpr)
  | run (parser : Value ω)
  /-- Runs another of its bodies at each call, and the last one from then on. The serial number
  tells whose calls are counted. -/
  | inTurn (serial : Nat) (bodies : List (Routine ω))

/-- A parsing function as it can be handed on: with its name and the error it declares. It is bound
if it was taken of a class to which it belongs. -/
structure Handle (ω : Type) where
  name : Option String
  declares : Declared ω
  bound : Bool
  routine : Routine ω

def Handle.kind (r : Handle ω) : Kind := if r.bound then .method else .function

/-- What a class has as its `parse`. -/
inductive ParseAttribute (ω : Type) where
  | absent
  | value (v : Value ω)
  | routine (r : Handle ω)

/-- A class with a parsing function of its own. -/
structure ParsableClass (ω : Type) where
  name : String
  serial : Nat
  parse : ParseAttribute ω
  err : Option (Declared ω)
  errType : Option (Declared ω)
  call : Option (Handle ω)

inductive Object where
  | parser (p : Parser Object) (shown : String)
  | function (f : FunctionExpr)
  | factory (serial : Nat) (naming : Naming) (p : ParserExpr)
  | routine (r : Handle Object)
  | parsable (c : ParsableClass Object)
  | ofClass (c : ParsableClass Object)
  | indexed (c : IndexedClass)
  /-- A cursor as it was when it was handed on: the input that was left, and its shown form. -/
  | cursor (rest : List Char) (shown : String)

/-- The name of a function whose usual name is given. -/
def Naming.name? (usualName : String) : Naming → Option String
  | given name => some name
  | usual => some usualName
  | anonymous => none

def FunctionBody.usualName : FunctionBody → String
  | identity => "identity"
  | text => "text"
  | shown => "repr"
  | length => "len"
  | reverse => "reverse"
  | first => "first"
  | second => "second"
  | double => "double"
  | add _ => "add"
  | list => "list"
  | int => "int"
  | typeName => "type_name"
  | expectedLength => "expected_len"
  | takeText => "take_text"
  | pure => "pure"
  | fail => "fail"
  | const _ => "const"
  | wrap _ => "wrap"
  | ok _ => "ok"
  | err _ _ => "err"
  | raise _ => "raise"
  | parser _ => "parser"
  | run _ => "run"
  | ifText _ _ _ => "if"

namespace ParsableClass

def kind (c : ParsableClass ω) : Kind := .mk c.name c.serial [.object]

/-- What an attribute declares, if it holds a kind. -/
def declared (held : Option (Declared ω)) : Declared ω :=
  match held with
  | some (.kind k) => .kind k
  | _ => .undeclared

def isParsable (c : ParsableClass ω) : Bool :=
  match c.parse with
  | .routine _ => true
  | _ => false

/-- Whether a class has both attributes of the protocol. -/
def followsProtocol (c : ParsableClass ω) : Bool :=
  c.err.isSome &&
    match c.parse with
    | .absent | .value .none => false
    | _ => true

end ParsableClass

namespace Object

def kindOf : Object → Kind
  | parser _ _ => .parser
  | function _ | factory _ _ _ => .function
  | routine r => r.kind
  | parsable _ => .type
  | ofClass c => c.kind
  | indexed c => c.kind
  | cursor _ _ => .cursor

instance : HostObject Object where
  kind := kindOf
  shown
    | .parser _ shown => shown
    | .function _ | .factory _ _ _ | .routine _ => "<function>"
    | .parsable c => c.kind.shown
    | .ofClass c => s!"<{c.name}>"
    | .indexed c => c.shown
    | .cursor _ shown => shown
  text
    | .parser _ shown => shown
    | .function _ | .factory _ _ _ | .routine _ => "<function>"
    | .parsable c => c.kind.shown
    | .ofClass c => s!"<{c.name}>"
    | .indexed c => c.shown
    | .cursor rest _ => String.ofList rest
  name?
    | .function (.mk naming body) => naming.name? body.usualName
    | .factory _ naming _ => naming.name? "factory"
    | .routine r => r.name
    | .parsable c => some c.name
    | .indexed c => some c.name
    | _ => none
  holder
    | .parsable c => .aClass c.name
    | .indexed c => c.holder
    | .routine _ => .aValue Kind.function.label
    | o => .aValue o.kindOf.label
  length?
    | .cursor rest _ => some rest.length
    | _ => none
  items?
    | .indexed c => some [.indexed c.apart]
    | _ => none
  present
    | .parser _ shown => .field "parser" (.text shown)
    | .parsable c => .field "type" (.text c.name)
    | o => .field "object" (.text o.kindOf.name)

def ofParser (p : Parser Object) : Value Object :=
  .host (.parser p (p.shown?.toOption.getD ""))

/-- What an object is as a parser. A class declares its `Err`, an instance that can be called the
`err_type` of its class. -/
def operand : Object → Operand Object
  | parser p _ => .parser p
  | routine r => .function (r.name.getD "parser") r.declares (.routine r)
  | parsable c =>
    match c.parse with
    | .routine r => .ofClass c.name (c.err.getD .undeclared) (some (.routine r))
    | _ => .ofClass c.name .undeclared none
  | ofClass c =>
    match c.call with
    | some r => .function "parser" (ParsableClass.declared c.errType) (.routine r)
    | none => .other (.host (.ofClass c))
  | indexed c => .function c.name .undeclared (.indexed c)
  | o => .other (.host o)

end Object

end ParserAlgebra.Script
