import ParserAlgebra.Parser.Build
import ParserAlgebra.Script.Object

/-!
# Building what a script writes

Values, kinds and parsers are made of their written forms. Names are looked up when a form is built.
-/

namespace ParserAlgebra.Script

/-- What a script has named, and what it remembers between calls. -/
structure Session where
  kinds : List (String × Kind)
  named : List (String × Value Object)
  /-- How many objects with a serial number or a mark have been made. -/
  made : Nat
  /-- The parsers that deferred parsers turned out to be. -/
  forced : List (Nat × Parser Object)
  /-- How often each parsing function that takes turns was called. -/
  turns : List (Nat × Nat)

abbrev Act := Action Object Session

namespace Session

def empty : Session := ⟨[], [], 0, [], []⟩

/-- The standard kinds that a script cannot name. -/
def unnamed : List Kind :=
  [.type, .generic, .function, .method, .sequenceAlias, .classAlias, .unpackedAlias, .parser,
   .cursor, .takeFailure, .attributeError, .frozenInstanceError, .indexError, .overflowError]

def kind? (s : Session) (name : String) : Option Kind :=
  s.kinds.lookup name <|> (Kind.standard? name).filter fun k => !unnamed.contains k

/-- A number that no other object has. -/
def fresh : Act Nat := do
  Action.modifyOwn fun s => { s with made := s.made + 1 }
  return (← Action.own).made

end Session

def resolve {α : Type} (name : String) (found : Option α) : Act α :=
  match found with
  | some a => return a
  | none => Action.fault (.unknownName name)

def kindNamed (name : String) : Act Kind := do
  resolve name ((← Action.own).kind? name)

/-- The name of a new kind can hold every character but one. -/
def checkKindName (name : String) : Except Fault Unit :=
  if name.toList.contains '\x00' then .error .badKindName else .ok ()

/-- Gives an object that was just made a mark of its own. -/
def marked (v : Value Object) : Act (Value Object) := do
  match v with
  | .object k held attributes _ chained =>
    return .object k held attributes (← Session.fresh) chained
  | v => return v

def construct (k : Kind) (args : List (Value Object)) : Act (Value Object) := do
  marked (← Value.construct k args)

mutual
def makeValue : ValueExpr → Act (Value Object)
  | .none => return .none
  | .bool b => return .bool b
  | .int n => return .int n
  | .numeral s => return .int (← (Value.str s : Value Object).toInteger)
  | .str s => return .str s
  | .list items => return .list (← makeValues items)
  | .tuple items => return .tuple (← makeValues items)
  | .span source start stop => do
    let source ← makeValue source
    let start ← makeValue start
    construct .span [source, start, ← makeValue stop]
  | .mismatch noSpace => return .mismatch (if noSpace then .noSpace else .noMatch)
  | .call name args => do
    let k ← kindNamed name
    construct k (← makeValues args)
  | .ok v => return .ok (← makeValue v)
  | .err e pos => do
    let e ← makeValue e
    return .err e (← makeValue pos)
def makeValues : List ValueExpr → Act (List (Value Object))
  | [] => return []
  | v :: vs => do
    let v ← makeValue v
    return v :: (← makeValues vs)
end

def makeDeclared : KindExpr → Act (Declared Object)
  | .named name => return .kind (← kindNamed name)
  | .plain v => return .plain (← makeValue v)

def makeDeclared? : Option KindExpr → Act (Option (Declared Object))
  | none => return none
  | some k => return some (← makeDeclared k)

/-- A value as a parser. -/
def asParser (v : Value Object) (override : Option (Declared Object)) : Act (Parser Object) :=
  (Operand.ofValue Object.operand v).toParser override

/-- The name a parser is given, unless it is empty, or else the name of its function. -/
def parserName (given : Option String) (r : Handle Object) : String :=
  ((given.filter fun n => !n.isEmpty) <|> r.name).getD "parser"

mutual
def buildRoutine : RoutineExpr → Act (Handle Object)
  | .mk naming body => do
    return { name := naming.name? "body", declares := .undeclared, bound := false,
             routine := ← buildBody body }
def buildBody : RoutineBody → Act (Routine Object)
  | .ok v => return .ok v
  | .err e pos => return .err e pos
  | .bad v => return .bad v
  | .advance n => return .advance n
  | .take n => return .take n
  | .tryTake n => return .tryTake n
  | .goto mark => return .goto mark
  | .eatErr n e pos => return .eatErr n e pos
  | .oneOf chars => return .oneOf chars
  | .place => return .place
  | .raise e => return .raise e
  | .run p => return .run (← build p)
  | .inTurn bodies => do
    let bodies ← buildBodies bodies
    return .inTurn (← Session.fresh) bodies
def buildBodies : List RoutineExpr → Act (List (Routine Object))
  | [] => return []
  | .mk _ body :: rs => do
    let r ← buildBody body
    return r :: (← buildBodies rs)
def build : ParserExpr → Act (Value Object)
  | .word => return Object.ofParser .word
  | .whitespace => return Object.ofParser .whitespace
  | .nextChar => return Object.ofParser .nextChar
  | .eof => return Object.ofParser .eof
  | .take literal => return Object.ofParser (.take literal)
  | .pure v => return Object.ofParser (← Parser.mkPure (← makeValue v))
  | .fail e => return Object.ofParser (← Parser.mkFail (← makeValue e))
  | .call s a b => do
    let a ← build a
    let b ← build b
    return Object.ofParser (← s.call Object.operand a b)
  | .sign s a b => do
    let a ← build a
    let b ← build b
    let p ← asParser a none
    return Object.ofParser (← s.apply Object.operand (Object.ofParser p) b)
  | .choice ps => do
    let operands := (← buildAll ps).map (Operand.ofValue Object.operand)
    return Object.ofParser (← Parser.mkChoice operands)
  | .many a => do return Object.ofParser (.many (← asParser (← build a) none))
  | .skipMany a => do return Object.ofParser (Parser.skipMany (← asParser (← build a) none))
  | .many1 a => do return Object.ofParser (← Parser.mkMany1 (← asParser (← build a) none))
  | .optionMaybe a => do return Object.ofParser (.option .none (← asParser (← build a) none))
  | .tryParse a => do return Object.ofParser (.rewind (← asParser (← build a) none))
  | .option default a => do
    let default ← makeValue default
    return Object.ofParser (.option default (← asParser (← build a) none))
  | .sepBy a sep => do
    let a ← build a
    let sep ← build sep
    let p ← asParser a none
    return Object.ofParser (.sepBy p (← asParser sep none))
  | .sepBy1 a sep => do
    let a ← build a
    let sep ← build sep
    let p ← asParser a none
    return Object.ofParser (.sepBy1 p (← asParser sep none))
  | .map a f => do
    return Object.ofParser (.map (← asParser (← build a) none) (.function (.function f)))
  | .andThen a f err => do
    let a ← build a
    let err ← makeDeclared? err
    let p ← asParser a none
    return Object.ofParser (← Parser.mkRefine p (.function f) (err.getD (.kind .valueError)))
  | .bind a f => do
    return Object.ofParser (← Parser.mkBind (← asParser (← build a) none) (.function f))
  | .convertErr a target => do
    let a ← build a
    let target ← makeDeclared target
    return Object.ofParser (← Parser.mkConvert (← asParser a none) target)
  | .mapErr a f err => do
    let a ← build a
    let err ← makeDeclared? err
    return Object.ofParser
      (.mapErr (← asParser a none) (.function f) (err.getD .undeclared))
  | .later a err naming => do
    let err ← makeDeclared? err
    return Object.ofParser
      (.later (err.getD .undeclared) (.factory (← Session.fresh) naming a))
  | .trace label => return Object.ofParser (.trace label)
  | .traced label a => do
    return Object.ofParser (.traced label (← asParser (← build a) none))
  | .ref name => do resolve name ((← Action.own).named.lookup name)
  | .new body err name decorator => do
    let r ← buildRoutine body
    let err ← makeDeclared? err
    if decorator && (name.getD "").isEmpty && r.name.isNone then
      Action.fault (.noAttribute (.aValue Kind.function.name) "__name__")
    return Object.ofParser (.function (parserName name r) (err.getD .undeclared) (.routine r))
  | .fn body errType => do
    let r ← buildRoutine body
    let errType ← makeDeclared? errType
    return .host (.routine { r with declares := ParsableClass.declared errType })
  | .asParser a err => do
    let a ← build a
    let err ← makeDeclared? err
    return Object.ofParser (← asParser a err)
  | .parsableParser a => do
    match ← build a with
    | .host (.parsable c) =>
      if c.isParsable then return Object.ofParser (← asParser (.host (.parsable c)) none)
      else Action.fault (.notParsable c.kind.shown)
    | v => Action.fault (.notParsable (← v.shown?))
  | .kind name => return .kind (← kindNamed name)
  | .value v => makeValue v
  | .parsable name kind body value err errType call use => do
    let made ← match kind, body with
      | .attribute, _ => ParseAttribute.value <$> makeValue value
      | .absent, _ | _, none => pure .absent
      | _, some r => ParseAttribute.routine <$> buildRoutine r
    let err ← makeDeclared? err
    let errType ← makeDeclared? errType
    let call ← match call with
      | some r => some <$> buildRoutine r
      | none => pure none
    let parse := match made with
      | .routine r =>
        let bound := decide (kind = .bound)
        let declares := if bound then ParsableClass.declared err else .undeclared
        .routine { r with name := some "parse", declares, bound }
      | other => other
    checkKindName name
    let c : ParsableClass Object := { name, serial := ← Session.fresh, parse, err, errType, call }
    match use with
    | .itself => return .host (.parsable c)
    | .anInstance => return .host (.ofClass c)
    | .method =>
      match parse with
      | .routine r => return .host (.routine r)
      | .value v => return v
      | .absent =>
        Action.fault (.noAttribute (.aClass name) "parse")
def buildAll : List ParserExpr → Act (List (Value Object))
  | [] => return []
  | p :: ps => do
    let v ← build p
    return v :: (← buildAll ps)
end

end ParserAlgebra.Script
