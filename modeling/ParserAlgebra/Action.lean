import ParserAlgebra.Cursor.Basic
import ParserAlgebra.Registry
import ParserAlgebra.Settings

/-!
# Actions

What happens during a parse: an action sees the registry, the settings and the threshold of the log,
moves the cursor, writes the log and may change the state of the host program. It returns a value,
or raises an exception, or runs out of the steps it was given. However it ends, what it did to the
state stays done.
-/

namespace ParserAlgebra

inductive Level where
  | debug | info | warning | error
  deriving DecidableEq, Repr

namespace Level

def name : Level → String
  | debug => "DEBUG"
  | info => "INFO"
  | warning => "WARNING"
  | error => "ERROR"

def rank : Level → Nat
  | debug => 0
  | info => 1
  | warning => 2
  | error => 3

/-- The parts of the engine that write to the log. -/
inductive Channel where
  | errors | loops | combinators
  deriving DecidableEq, Repr

def Channel.name : Channel → String
  | errors => "pyparsa.Errors"
  | loops => "pyparsa.Prim"
  | combinators => "pyparsa.Combinators"

end Level

structure Record where
  level : Level
  channel : Level.Channel
  message : String
  deriving DecidableEq, Repr

def Record.line (r : Record) : String := s!"{r.level.name} {r.channel.name}: {r.message}"

/-- What an action sees and does not change. -/
structure Context (ω : Type) where
  registry : Registry ω
  settings : Settings ω
  /-- Entries below this level are not written. -/
  threshold : Level

/-- What an action may change; `own` is the state of the host program. -/
structure State (ω σ : Type) where
  cursor : Cursor ω
  /-- The entries written so far, the newest first. -/
  log : List Record
  own : σ

namespace State

variable {ω σ : Type}

def backTo (s : State ω σ) (m : Mark ω) : State ω σ := { s with cursor := s.cursor.backTo m }

@[simp] theorem backTo_toMark (s : State ω σ) (m : Mark ω) : (s.backTo m).cursor.toMark = m := rfl

@[simp] theorem backTo_source (s : State ω σ) (m : Mark ω) :
    (s.backTo m).cursor.source = s.cursor.source := rfl

@[simp] theorem backTo_log (s : State ω σ) (m : Mark ω) : (s.backTo m).log = s.log := rfl

@[simp] theorem backTo_own (s : State ω σ) (m : Mark ω) : (s.backTo m).own = s.own := rfl

@[simp] theorem backTo_backTo (s : State ω σ) (m n : Mark ω) :
    (s.backTo m).backTo n = s.backTo n := rfl

@[simp] theorem backTo_self (s : State ω σ) : s.backTo s.cursor.toMark = s := rfl

end State

inductive Answer (ω α : Type) where
  | returned (a : α)
  | raised (exception : Value ω)
  | exhausted

def Action (ω σ α : Type) : Type := Context ω → State ω σ → Answer ω α × State ω σ

namespace Action

variable {ω σ α β : Type}

@[inline] def pure (a : α) : Action ω σ α := fun _ s => (.returned a, s)

@[inline] def bind (x : Action ω σ α) (f : α → Action ω σ β) : Action ω σ β := fun c s =>
  match x c s with
  | (.returned a, s) => f a c s
  | (.raised e, s) => (.raised e, s)
  | (.exhausted, s) => (.exhausted, s)

instance : Monad (Action ω σ) where
  pure := pure
  bind := bind

/-- The second action goes on where the first one ended, if that returned. -/
theorem bind_apply (x : Action ω σ α) (f : α → Action ω σ β) (c : Context ω) (s : State ω σ) :
    (x >>= f) c s = match x c s with
      | (.returned a, s) => f a c s
      | (.raised e, s) => (.raised e, s)
      | (.exhausted, s) => (.exhausted, s) := rfl

@[simp] theorem pure_apply (a : α) (c : Context ω) (s : State ω σ) :
    (Pure.pure a : Action ω σ α) c s = (.returned a, s) := rfl

theorem map_apply (f : α → β) (x : Action ω σ α) (c : Context ω) (s : State ω σ) :
    (f <$> x) c s = match x c s with
      | (.returned a, s) => (.returned (f a), s)
      | (.raised e, s) => (.raised e, s)
      | (.exhausted, s) => (.exhausted, s) := rfl

instance : LawfulMonad (Action ω σ) := LawfulMonad.mk' _
  (fun x => by
    funext c s
    change (x >>= fun a => Pure.pure (id a)) c s = _
    rw [bind_apply]
    rcases x c s with ⟨_ | _ | _, _⟩ <;> rfl)
  (fun _ _ => rfl)
  (fun x f g => by
    funext c s
    simp only [bind_apply]
    rcases x c s with ⟨_ | _ | _, _⟩ <;> rfl)

def raise (e : Value ω) : Action ω σ α := fun _ s => (.raised e, s)

def fault (f : Fault) : Action ω σ α := raise f.exception

def exhausted : Action ω σ α := fun _ s => (.exhausted, s)

def ofExcept : Except Fault α → Action ω σ α
  | .ok a => pure a
  | .error f => fault f

instance : MonadLift (Except Fault) (Action ω σ) where
  monadLift := ofExcept

@[simp] theorem raise_apply (e : Value ω) (c : Context ω) (s : State ω σ) :
    (raise e : Action ω σ α) c s = (.raised e, s) := rfl

@[simp] theorem fault_apply (f : Fault) (c : Context ω) (s : State ω σ) :
    (fault f : Action ω σ α) c s = (.raised f.exception, s) := rfl

@[simp] theorem exhausted_apply (c : Context ω) (s : State ω σ) :
    (exhausted : Action ω σ α) c s = (.exhausted, s) := rfl

@[simp] theorem monadLift_ok (a : α) :
    (monadLift (Except.ok a : Except Fault α) : Action ω σ α) = Pure.pure a := rfl

@[simp] theorem monadLift_error (f : Fault) :
    (monadLift (Except.error f : Except Fault α) : Action ω σ α) = fault f := rfl

/-- Runs an action and catches the exceptions it raises that satisfy `p`. -/
def catching (p : Value ω → Bool) (x : Action ω σ α) : Action ω σ (Except (Value ω) α) := fun c s =>
  match x c s with
  | (.returned a, s) => (.returned (.ok a), s)
  | (.raised e, s) => (if p e then .returned (.error e) else .raised e, s)
  | (.exhausted, s) => (.exhausted, s)

def context : Action ω σ (Context ω) := fun c s => (.returned c, s)

def cursor : Action ω σ (Cursor ω) := fun _ s => (.returned s.cursor, s)

def setCursor (cursor : Cursor ω) : Action ω σ Unit := fun _ s => (.returned (), { s with cursor })

def save : Action ω σ (Mark ω) := fun _ s => (.returned s.cursor.toMark, s)

def rewindTo (m : Mark ω) : Action ω σ Unit := fun _ s => (.returned (), s.backTo m)

def own : Action ω σ σ := fun _ s => (.returned s.own, s)

def modifyOwn (f : σ → σ) : Action ω σ Unit := fun _ s => (.returned (), { s with own := f s.own })

@[simp] theorem context_apply (c : Context ω) (s : State ω σ) :
    (context : Action ω σ (Context ω)) c s = (.returned c, s) := rfl

@[simp] theorem cursor_apply (c : Context ω) (s : State ω σ) :
    (cursor : Action ω σ (Cursor ω)) c s = (.returned s.cursor, s) := rfl

@[simp] theorem setCursor_apply (cursor : Cursor ω) (c : Context ω) (s : State ω σ) :
    (setCursor cursor : Action ω σ Unit) c s = (.returned (), { s with cursor }) := rfl

@[simp] theorem save_apply (c : Context ω) (s : State ω σ) :
    (save : Action ω σ (Mark ω)) c s = (.returned s.cursor.toMark, s) := rfl

@[simp] theorem rewindTo_apply (m : Mark ω) (c : Context ω) (s : State ω σ) :
    (rewindTo m : Action ω σ Unit) c s = (.returned (), s.backTo m) := rfl

def writes (level : Level) : Action ω σ Bool := fun c s =>
  (.returned (c.threshold.rank ≤ level.rank), s)

def log (level : Level) (channel : Level.Channel) (message : String) : Action ω σ Unit := fun c s =>
  (.returned (), if c.threshold.rank ≤ level.rank
    then { s with log := ⟨level, channel, message⟩ :: s.log } else s)

/-- Writes a message to the log, where its level is written. A message that cannot be put together is
left out. -/
def note (level : Level) (channel : Level.Channel) (message : Except Fault String) :
    Action ω σ Unit := fun c s =>
  if c.threshold.rank ≤ level.rank then
    match message with
    | .ok message => (.returned (), { s with log := ⟨level, channel, message⟩ :: s.log })
    | .error _ => (.returned (), s)
  else (.returned (), s)

/-- Writing a note comes to an end. -/
theorem note_apply (level : Level) (channel : Level.Channel) (message : Except Fault String)
    (c : Context ω) (s : State ω σ) :
    (note level channel message : Action ω σ Unit) c s =
      (.returned (), (note level channel message c s).2) := by
  unfold note
  split
  · cases message <;> rfl
  · rfl

theorem note_ok (level : Level) (channel : Level.Channel) (message : String) :
    (note level channel (.ok message) : Action ω σ Unit) = log level channel message := by
  funext c s
  unfold note log
  split <;> rfl

theorem note_error (level : Level) (channel : Level.Channel) (f : Fault) :
    (note level channel (.error f) : Action ω σ Unit) = pure () := by
  funext c s
  simp only [note, ite_self]
  rfl

/-- Runs an action on an input of its own, and leaves the cursor as it was. -/
def withInput (input : Cursor ω) (x : Action ω σ α) : Action ω σ α := fun c s =>
  let (answer, t) := x c { s with cursor := input }
  (answer, { t with cursor := s.cursor })

end Action

end ParserAlgebra
