import ParserAlgebra.Script.Build

/-!
# Calling the functions of a script

The functions that a script writes are applied to values, its parsing functions are run at the
cursor, and its deferred parsers are built when they are first needed and kept from then on.
-/

namespace ParserAlgebra.Script

/-- Raises a value; only exceptions can be raised. -/
def raiseValue {α : Type} (v : Value Object) : Act α :=
  if v.kindOf.isException then Action.raise v
  else Action.fault (.misused .notRaisable)

/-! ## Functions -/

def itemAt (i : Nat) (v : Value Object) : Except Fault (Value Object) :=
  let at? (held : Kind) (items : List (Value Object)) : Except Fault (Value Object) :=
    match items[i]? with
    | some item => .ok item
    | none => .error (.outOfRange held.name)
  match v.plain with
  | .str s =>
    match s.toList[i]? with
    | some c => .ok (.str (String.singleton c))
    | none => .error (.outOfRange "string")
  | .list items => at? .list items
  | .tuple items => at? .tuple items
  | .kind k => (IndexedClass.ofKind? k i).map fun c => .host (.indexed c)
  | .host (.indexed c) => .error (.misused (.notGeneric c.shown))
  | _ => .error (.misused v.withoutItems)

def doubled (v : Value Object) : Except Fault (Value Object) :=
  match v.plain with
  | .int n => .ok (.int (n * 2))
  | .bool b => .ok (.int (if b then 2 else 0))
  | .str s => .ok (.str (s ++ s))
  | .list items => .ok (.list (items ++ items))
  | .tuple items => .ok (.tuple (items ++ items))
  | _ => .error (.misused (.unsupported "*" v.kindOf.label Kind.int.label))

/-- A value and another one together: numbers are added, texts, lists and tuples are put one after
the other. -/
def added (v w : Value Object) : Except Fault (Value Object) :=
  let apart (held : Kind) : Fault := .misused (.notConcatenable held.label w.kindOf.label)
  match v.plain, w.plain with
  | .str s, .str t => .ok (.str (s ++ t))
  | .list xs, .list ys => .ok (.list (xs ++ ys))
  | .tuple xs, .tuple ys => .ok (.tuple (xs ++ ys))
  | .str _, _ => .error (apart .str)
  | .list _, _ => .error (apart .list)
  | .tuple _, _ => .error (apart .tuple)
  | _, _ =>
    match v.toInt?, w.toInt? with
    | some m, some n => .ok (.int (m + n))
    | _, _ => .error (.misused (.unsupported "+" v.kindOf.label w.kindOf.label))

/-- The length of what a failure expected, as a code. -/
def expectedLength (v : Value Object) : Act (Value Object) := do
  let expected ← v.get .expected
  construct .code [.int (← expected.length?)]

mutual
def callFunction (run : Runner Object Session) : FunctionExpr → Value Object → Act (Value Object)
  | .mk _ body, v => callBody run body v
def callBody (run : Runner Object Session) : FunctionBody → Value Object → Act (Value Object)
  | .identity, v => return v
  | .text, v => return .str (← v.text?)
  | .shown, v => return .str (← v.shown?)
  | .length, v => return .int (← v.length?)
  | .reverse, v => return .str (String.ofList (← v.text?).toList.reverse)
  | .first, v => itemAt 0 v
  | .second, v => itemAt 1 v
  | .double, v => doubled v
  | .add n, v => do added v (← makeValue n)
  | .list, v => return .list [v]
  | .int, v => do return .int (← (Value.str (← v.text?) : Value Object).toInteger)
  | .typeName, v => return .str v.kindOf.name
  | .expectedLength, v => expectedLength v
  | .takeText, v => return Object.ofParser (.take (← v.text?))
  | .pure, v => return Object.ofParser (← Parser.mkPure v)
  | .fail, v => return Object.ofParser (← Parser.mkFail v)
  | .const c, _ => makeValue c
  | .wrap k, v => do
    match ← makeDeclared k with
    | .kind k => construct k [v]
    | .plain p => Action.fault (.misused (.notCallable p.kindOf.label))
  | .ok c, _ => return .ok (← makeValue c)
  | .err e pos, _ => do
    let e ← makeValue e
    return .err e (← makeValue pos)
  | .raise e, _ => do raiseValue (← makeValue e)
  | .parser p, _ => build p
  | .run p, v => do
    let q ← asParser (← build p) none
    return (← Action.withInput (.ofList (← v.text?).toList) (run q)).toValue
  | .ifText text yes no, v => do
    if (← v.text?) = text then callFunction run yes v else callFunction run no v
end

/-! ## Moves of the cursor -/

/-- Moves the cursor by an operation that may be refused. -/
def move {α : Type} (f : Cursor Object → Except Fault (α × Cursor Object)) : Act α := do
  let (a, c) ← f (← Action.cursor)
  Action.setCursor c
  return a

def advanceBy (n : Value Object) : Act Unit := move fun c => (c.advance n).map ((), ·)

def restoreTo (mark : Value Object) : Act Unit := move fun c => (c.restore mark).map ((), ·)

/-- The lesser one of a value and a number. -/
def atMost (v : Value Object) (most : Nat) : Except Fault (Value Object) := do
  let n ← Value.orderedAfter .int "<" v
  return if (most : Int) < n then .int most else v

/-- The number of the call that a parsing function which takes turns is in. -/
def nextTurn (serial : Nat) : Act Nat := do
  let turn := ((← Action.own).turns.lookup serial).getD 0
  Action.modifyOwn fun s =>
    { s with turns := (serial, turn + 1) :: s.turns.filter fun t => t.1 != serial }
  return turn

/-! ## Parsing functions -/

mutual
def runRoutine (run : Runner Object Session) : Routine Object → Act (Value Object)
  | .ok v => return .ok (← makeValue v)
  | .err e pos => do
    let e ← makeValue e
    return .err e (← makeValue pos)
  | .bad v => makeValue v
  | .advance n => do
    advanceBy (← makeValue n)
    return .ok .none
  | .take n => do
    let n ← makeValue n
    return .ok (← move fun c => c.take n)
  | .tryTake n => do
    let n ← makeValue n
    match ← move fun c => c.tryTake n with
    | some s => return .ok s
    | none => return .err (.str "short") .none
  | .goto mark => do
    restoreTo (← makeValue mark)
    return .ok .none
  | .eatErr n e pos => do
    let n ← makeValue n
    advanceBy (← atMost n (← Action.cursor).remaining)
    let e ← makeValue e
    return .err e (← makeValue pos)
  | .oneOf chars => do
    match (← Action.cursor).peek? with
    | some c =>
      if chars.toList.contains c then return .ok (← move fun c => c.take (.int 1))
      else return .err (.str "not one of") .none
    | none => return .err (.str "not one of") .none
  | .place => do
    let c ← Action.cursor
    let (line, column) := c.lineCol none
    return .ok (.tuple [c.value, .tuple [.int line, .int column]])
  | .raise e => do raiseValue (← makeValue e)
  | .run p => do return (← run (← asParser p none)).toValue
  | .inTurn serial bodies => do runTurn run bodies (← nextTurn serial)
/-- Runs the body of a turn, or the last one when there are not so many. -/
def runTurn (run : Runner Object Session) : List (Routine Object) → Nat → Act (Value Object)
  | [], _ => Action.fault (.outOfRange Kind.list.name)
  | [r], _ => runRoutine run r
  | r :: _, 0 => runRoutine run r
  | _ :: rs, turn + 1 => runTurn run rs turn
end

/-- The parser that a deferred parser stands for, built at its first use. -/
def force (serial : Nat) (p : ParserExpr) : Act (Parser Object) := do
  match (← Action.own).forced.lookup serial with
  | some q => return q
  | none =>
    let q ← asParser (← build p) none
    Action.modifyOwn fun s => { s with forced := (serial, q) :: s.forced }
    return q

/-- The cursor as it is handed to a class. -/
def cursorObject : Act (Value Object) := do
  let c ← Action.cursor
  return .host (.cursor c.rest (← c.shown?))

/-- Runs a class with an index as a parsing function: the class is called with the cursor. -/
def runIndexed (c : IndexedClass) : Act (Value Object) := do
  if !c.isSequence && c.unpacked ≠ 0 then Action.fault (.misused (.notInstantiable c.name))
  construct c.origin [← cursorObject]

/-- A script as a host program. -/
def host : Host Object Session where
  call run o v :=
    match o with
    | .function f => callFunction run f v
    | o => Action.fault (.misused (.notCallable (HostObject.kind o).label))
  step run o :=
    match o with
    | .routine r => runRoutine run r.routine
    | .ofClass c =>
      match c.call with
      | some r => runRoutine run r.routine
      | none => Action.fault (.misused (.notCallable c.name))
    | .indexed c => runIndexed c
    | o => Action.fault (.misused (.notCallable (HostObject.kind o).label))
  force _ o :=
    match o with
    | .factory serial _ p => force serial p
    | o => Action.fault (.misused (.notCallable (HostObject.kind o).label))
  operand := Object.operand

end ParserAlgebra.Script
