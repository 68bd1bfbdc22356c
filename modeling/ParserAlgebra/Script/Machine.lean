import ParserAlgebra.Script.Inspect
import ParserAlgebra.Script.Sameness

/-!
# Performing a script

What each step does to the machine and replies, and the answers of a whole script
(`performAll`).
-/

namespace ParserAlgebra.Script

/-! ## Kinds and declarations -/

/-- A kind made by a script, under a name that it has from then on. -/
def makeKind (name : String) (bases : List KindExpr) : Act Kind := do
  let bases ← bases.mapM fun b => do (← makeDeclared b).kind?
  let bases := if bases.isEmpty then [Kind.object] else bases
  if !Kind.fit bases then Action.fault (.misused .basesApart)
  checkKindName name
  match Kind.derive? name (← Session.fresh) bases with
  | none => Action.fault (.misused .basesUnordered)
  | some k =>
    Action.modifyOwn fun s => { s with kinds := (name, k) :: s.kinds }
    return k

def registerStep (m : Machine) (s t : Declared Object) (c : Conversion Object)
    (decorator : Bool) : Reply :=
  match Conversion.register m.registry s t c with
  | (registry, .error f) => { m with registry }.refused f []
  | (registry, .ok entry) =>
    ⟨if decorator then [("same", .flag true)] else [], m.written [entry], { m with registry }⟩

/-- The context of a conversion that is asked for, at most one. -/
def contextOf : List String → Except Fault String
  | [] => .ok ""
  | [context] => .ok context
  | contexts => .error (.misused (.takesAtMost "context" 1 contexts.length))

/-- Makes a kind that wraps the errors of others. -/
def typeStep (m : Machine) (name : String) (bases absorbs : List KindExpr) : Reply :=
  m.andThen (do
    let k ← makeKind name bases
    return (k, ← absorbs.mapM makeDeclared)) fun m (k, sources) =>
      let (registry, log, f) := Conversion.absorb m.registry (.kind k) sources
      let m := { m with registry }
      match f with
      | some f => m.refused f (m.written log)
      | none => ⟨[("mro", lineageDatum k)], m.written log, m⟩

/-! ## Settings -/

/-- The reply of a step that has changed the settings, or the fault of telling them. -/
def settingsReply (m : Machine) (fields : Except Fault Fields) : Reply :=
  match fields with
  | .ok fields => ⟨fields, [], m⟩
  | .error f => m.refused f []

def configureStep (m : Machine) (changes : List (String × Value Object)) : Reply :=
  match m.settings.setAll changes with
  | .error f => m.refused f []
  | .ok settings =>
    settingsReply { m with settings, saved := m.settings :: m.saved } do
      let previous ← settingsDatum m.settings
      return [("previous", previous), ("now", ← settingsDatum settings)]

def restoreStep (m : Machine) : Reply :=
  match m.saved with
  | [] => m.refused .nothingSaved []
  | settings :: saved =>
    settingsReply { m with settings, saved } do return [("now", ← settingsDatum settings)]

/-! ## Parsing -/

/-- The fields of an action that runs a parser. -/
def staged (stage : String) (shown : Fields) : Answer Object Fields → Fields
  | .returned fields => shown ++ fields
  | answer => shown ++ ("stage", .text stage) :: answerFields answer

def runStage (m : Machine) (shown : Fields) (x : Act Fields) : Reply :=
  let (answer, log, m) := m.act x
  ⟨staged "run" shown answer, log, m⟩

/-- Makes a cursor on a text at a place that a script gives. -/
def placeCursor (source : String) (pos : Value Object) : Except Fault (Cursor Object) :=
  Cursor.at? source.toList pos

/-- Runs a parser on a text or at the current cursor, of which there has to be one. -/
def runAtCursor (m : Machine) (p : Parser Object) (shown : Fields) (text : Option String)
    (start : Value Object) : Reply :=
  let placed := match text, m.cursor with
    | some t, _ => placeCursor t start
    | none, some c => .ok c
    | none, none => .error ((Value.none : Value Object).lacks "source")
  match placed with
  | .error f => ⟨staged "run" shown (.raised f.exception), [], m⟩
  | .ok cursor => runStage { m with cursor := some cursor } shown do
    outcomeFields cursor.source (← p.run Machine.callbacks)

def runObject (m : Machine) (v : Value Object) (text : List Char) (via : Via) : Reply :=
  match parserDatum? v with
  | .error f => m.refused f []
  | .ok shown =>
    runStage m (shown.map fun d => ("parser", d)).toList do
      let p ← asParser v none
      match via with
      | .logged => resultFields (← p.parseLogged Machine.callbacks text)
      | _ =>
        let outcome ← p.parseText Machine.callbacks text
        return [("stdout", .text (← Parser.printed text outcome))]

/-- Runs a parser that was built and adapted. -/
def runParser (m : Machine) (p : Parser Object) (text : Option String) (start : Value Object)
    (via : Via) : Reply :=
  match p.shown? with
  | .error f => m.refused f []
  | .ok shown =>
    let shown : Fields := [("parser", .text shown)]
    if via = Via.call then runAtCursor m p shown text start
    else
      let chars := (text.getD "").toList
      runStage m shown do outcomeFields chars (← p.parseText Machine.callbacks chars)

def parseStep (m : Machine) (p : ParserExpr) (text : Option String) (start : ValueExpr)
    (via : Via) : Reply :=
  let adapts : Bool := via = Via.call || via = Via.run
  let (built, log, m) := m.act do
    let v ← build p
    let p ← if adapts then some <$> asParser v none else pure none
    return (v, p, ← makeValue start)
  let r := match built with
    | .returned (_, some p, start) => runParser m p text start via
    | .returned (v, none, _) => runObject m v (text.getD "").toList via
    | .raised e => ⟨("stage", .text "build") :: e.raisedFields, [], m⟩
    | .exhausted => ⟨("stage", .text "build") :: answerFields .exhausted, [], m⟩
  { r with log := log ++ r.log }

/-! ## Steps -/

def perform (m : Machine) : Step → Reply
  | .cursor source pos =>
    m.andThen (do placeCursor source (← makeValue pos)) fun m c =>
      ⟨[], [], { m with cursor := some c }⟩
  | .cursorCall c args => m.answering do
    let v ← if m.cursor.isNone then cursorlessValue c else cursorValue c (← makeValues args)
    return [("result", ← v.present?)]
  | .span source start stop => m.answering do
    spanFields (← makeValue (.span source start stop))
  | .value v => m.answering do valueFields (← makeValue v)
  | .eq vs => m.answering do return [("eq", ← matrix (← makeValues vs) Value.equal)]
  | .distinct vs => m.answering do distinctFields (← makeValues vs)
  | .unwrap v => m.answering do
    return [("result", ← (← (← makeValue v).unwrap).present?)]
  | .describe v source => m.answering do
    return [("result", .text (← (← makeValue v).describe source.toList))]
  | .type name bases absorbs => typeStep m name bases absorbs
  | .register source target fn decorator =>
    m.andThen (do
      let s ← makeDeclared source
      return (s, ← makeDeclared target)) fun m (s, t) =>
      registerStep m s t ((fn.map fun f => .function (.function f)).getD .wrapping) decorator
  | .unregister source target =>
    m.andThen (do
      let s ← makeDeclared source
      return (s, ← makeDeclared target)) fun m (s, t) =>
      match Conversion.unregister m.registry s t with
      | .error f => m.refused f []
      | .ok registry => ⟨[], [], { m with registry }⟩
  | .edges =>
    match m.registry.strays with
    | [] => ⟨[("edges", edgesDatum m.registry)], [], m⟩
    | e :: _ => m.refused e.target.nameless []
  | .canConvert source target => m.answering do
    let s ← makeDeclared source
    return [("result", .flag (← m.registry.canConvert s (← makeDeclared target)))]
  | .require source target context => m.answering do
    let s ← makeDeclared source
    let t ← makeDeclared target
    Conversion.demand s t (← contextOf context)
    return [("result", .null)]
  | .join source target context => m.answering do
    let s ← makeDeclared source
    let t ← makeDeclared target
    let joined ← Conversion.join s t (← contextOf context)
    return [("result", ← joined.toValue.present?)]
  | .coerce value target => m.answering do
    let v ← makeValue value
    let t ← makeDeclared target
    let w ← Conversion.coerce Machine.callbacks v t
    let kind? := (← Action.own).kind?
    return [("result", ← w.present?),
      ("same", .flag (conversionHandsBack m.registry kind? t v w))]
  | .configure changes =>
    m.andThen (changes.mapM fun (name, v) => do return (name, ← makeValue v)) configureStep
  | .restoreSettings => restoreStep m
  | .log threshold => ⟨[], [], { m with threshold }⟩
  | .bindName name p => m.answering do
    let v ← build p
    Action.modifyOwn fun s => { s with named := (name, v) :: s.named }
    return [("built", (← parserDatum? v).getD .null)]
  | .parsable p => m.answering do return parsableFields (← build p)
  | .parse p text start via => parseStep m p text start via

/-- The answers of the steps of a script, in order. -/
def performAll (m : Machine) : List Step → List Fields
  | [] => []
  | step :: steps =>
    let r := perform m step
    r.answer :: performAll r.machine steps

end ParserAlgebra.Script
