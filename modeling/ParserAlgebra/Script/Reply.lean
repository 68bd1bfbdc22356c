import ParserAlgebra.Script.Call
import ParserAlgebra.Value.Present

/-!
# Machines and their replies

A machine holds all that the steps of a script share: the declared conversions, the settings, the
current cursor and the names given so far. A step replies with named data; an exception ends the
step, not the script.
-/

namespace ParserAlgebra.Script

structure Machine where
  registry : Registry Object
  settings : Settings Object
  saved : List (Settings Object)
  threshold : Level
  cursor : Option (Cursor Object)
  session : Session

namespace Machine

def start : Machine := ⟨.empty, {}, [], .warning, none, .empty⟩

def context (m : Machine) : Context Object := ⟨m.registry, m.settings, m.threshold⟩

/-- How deep parsers made during a run may be nested. -/
def depth : Nat := 100000

/-- How often a repetition may go round. -/
def rounds : Nat := 1000000000

def callbacks : Callbacks Object Session := host.callbacks rounds depth

/-- Runs an action from the state of the machine. -/
def act {α : Type} (m : Machine) (x : Act α) : Answer Object α × List Record × Machine :=
  let (answer, s) := x m.context ⟨m.cursor.getD (.ofList []), [], m.session⟩
  (answer, s.log.reverse, { m with cursor := m.cursor.map fun _ => s.cursor, session := s.own })

end Machine

/-! ## Replies -/

/-- What a step tells of how its action ended. An action that ran out of steps went too deep. -/
def answerFields : Answer Object Fields → Fields
  | .returned fields => fields
  | .raised e => e.raisedFields
  | .exhausted =>
    [("error", .text "RecursionError"), ("message", .text "maximum recursion depth exceeded")]

/-- What a step leads to. -/
structure Reply where
  fields : Fields
  log : List Record
  machine : Machine

namespace Reply

def placeDatum (c : Cursor Object) : Datum :=
  match c.given with
  | some (.bool b) => .flag b
  | _ => .number c.pos

/-- The answer of a step with what is always told: the place of the cursor and the log. -/
def answer (r : Reply) : Fields :=
  r.fields ++ ((r.machine.cursor.map fun c => ("pos", placeDatum c)).toList ++
    if r.log.isEmpty then [] else [("log", .list (r.log.map fun l => .text l.line))])

end Reply

namespace Machine

/-- A step that is one action. -/
def answering (m : Machine) (x : Act Fields) : Reply :=
  let (answer, log, m) := m.act x
  ⟨answerFields answer, log, m⟩

/-- A step that makes something of an action and then goes on with the machine. -/
def andThen {α : Type} (m : Machine) (x : Act α) (f : Machine → α → Reply) : Reply :=
  let (answer, log, m) := m.act x
  match answer with
  | .returned a => let r := f m a; { r with log := log ++ r.log }
  | .raised e => ⟨e.raisedFields, log, m⟩
  | .exhausted => ⟨answerFields .exhausted, log, m⟩

/-- A step that is refused with a fault. -/
def refused (m : Machine) (f : Fault) (log : List Record) : Reply :=
  ⟨(f.exception : Value Object).raisedFields, log, m⟩

/-- The entries that the threshold lets through. -/
def written (m : Machine) (log : List Record) : List Record :=
  log.filter fun r => m.threshold.rank ≤ r.level.rank

end Machine

end ParserAlgebra.Script
