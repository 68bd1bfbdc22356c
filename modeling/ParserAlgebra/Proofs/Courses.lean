import ParserAlgebra.Parser.Report

/-!
# The course of a run

What a parser does is a row of steps: it asks its outcomes, calls the functions of the host program,
runs its parts, one after the other, and goes on by what has come of it. The steps are laid out as a
tree (`Course`, `Parser.course`), in which a handler stands only where `refine` evaluates its
function. Taking the steps one by one is running the parser (`Parser.run_eq_act`).
-/

namespace ParserAlgebra

variable {ω σ : Type} [HostObject ω]

/-- The steps of an action, each with what follows it. -/
inductive Course (ω σ : Type) (α : Type) : Type 1 where
  | done (a : α)
  /-- A step of the engine or a function of the host program. -/
  | step {β : Type} (x : Action ω σ β) (next : β → Course ω σ α)
  /-- A function that may fail is called with the value of an outcome. What is caught of the
  exceptions is handed to what follows. -/
  | evaluate (err : Declared ω) (f : ω) (a : Outcome ω)
      (next : Except (Value ω) (Value ω) → Course ω σ α)
  | part (p : Parser ω) (next : Outcome ω → Course ω σ α)
  /-- A parser that was made during the run. -/
  | made (p : Parser ω) (next : Outcome ω → Course ω σ α)

namespace Course

variable {α β : Type}

protected def bind : Course ω σ α → (α → Course ω σ β) → Course ω σ β
  | done a, f => f a
  | step x next, f => step x fun b => (next b).bind f
  | evaluate err g a next, f => evaluate err g a fun r => (next r).bind f
  | part p next, f => part p fun a => (next a).bind f
  | made p next, f => made p fun a => (next a).bind f

instance : Monad (Course ω σ) where
  pure := done
  bind := Course.bind

instance : MonadLift (Action ω σ) (Course ω σ) where
  monadLift x := step x done

/-- Evaluates a function that may fail, and catches what it declares. -/
def attempt (err : Declared ω) (f : ω) (a : Outcome ω) :
    Course ω σ (Except (Value ω) (Value ω)) := evaluate err f a done

def run (p : Parser ω) : Course ω σ (Outcome ω) := part p done

def resume (p : Parser ω) : Course ω σ (Outcome ω) := made p done

/-- The evaluation of a function that may fail. -/
def evaluation (cb : Callbacks ω σ) (f : ω) (a : Outcome ω) : Action ω σ (Value ω) := do
  cb.call f (← a.value)

/-- Takes the steps one by one. -/
def act (cb : Callbacks ω σ) : Course ω σ α → Action ω σ α
  | done a => return a
  | step x next => x >>= fun b => (next b).act cb
  | evaluate err f a next =>
    Action.catching (fun e => err.catches e.kindOf) (evaluation cb f a) >>= fun r => (next r).act cb
  | part p next => p.run cb >>= fun a => (next a).act cb
  | made p next => cb.resume p >>= fun a => (next a).act cb

section Act

variable {cb : Callbacks ω σ}

@[simp] theorem act_pure (a : α) : (pure a : Course ω σ α).act cb = pure a := rfl

@[simp] theorem act_lift (x : Action ω σ α) : (monadLift x : Course ω σ α).act cb = x :=
  bind_pure x

@[simp] theorem act_ask (x : Except Fault α) :
    (monadLift x : Course ω σ α).act cb = (monadLift x : Action ω σ α) :=
  bind_pure (monadLift x : Action ω σ α)

@[simp] theorem act_run (p : Parser ω) : (run p : Course ω σ _).act cb = p.run cb :=
  bind_pure (p.run cb)

@[simp] theorem act_resume (p : Parser ω) : (resume p : Course ω σ _).act cb = cb.resume p :=
  bind_pure (cb.resume p)

@[simp] theorem act_attempt (err : Declared ω) (f : ω) (a : Outcome ω) :
    (attempt err f a : Course ω σ _).act cb =
      Action.catching (fun e => err.catches e.kindOf) (evaluation cb f a) :=
  bind_pure (Action.catching (fun e => err.catches e.kindOf) (evaluation cb f a))

@[simp] theorem act_bind (x : Course ω σ α) (f : α → Course ω σ β) :
    (x >>= f).act cb = x.act cb >>= fun a => (f a).act cb := by
  induction x with
  | done a => rfl
  | step x next ih | evaluate _ _ _ next ih | part _ next ih | made _ next ih =>
    change (_ >>= fun b => ((next b).bind f).act cb) = (_ >>= _) >>= _
    rw [bind_assoc]
    congr 1
    funext b
    exact ih b

@[simp] theorem act_ite {P : Prop} [Decidable P] (x y : Course ω σ α) :
    (if P then x else y).act cb = if P then x.act cb else y.act cb := apply_ite (act cb) P x y

end Act

end Course

/-! ## Conversions -/

namespace Conversion

/-- The conversion that an error needs to be of the declared kind, if it needs one. -/
def selected (error : Value ω) (target : Declared ω) : Action ω σ (Option (Conversion ω)) := do
  if target.isUndeclared then return none
  match target.holds? error.kindOf, target with
  | some true, _ => return none
  | some false, .kind t =>
    match (← Action.context).registry.find? error.kindOf t with
    | some conv => return some conv
    | none =>
      Action.note .debug .errors (error.shown?.map fun e => "cannot convert " ++ e ++ " into " ++ t.name)
      Action.fault (.missingConversion error.kindOf.name t.name none)
  | some false, .plain v =>
    match ← (← Action.context).registry.stray? error.kindOf v with
    | some conv => return some conv
    | none => Action.fault v.nameless
  | none, _ => Action.fault (.misused .classifierNotAKind)

theorem coerce_eq_selected (cb : Callbacks ω σ) (error : Value ω) (target : Declared ω) :
    coerce cb error target = (do
      match ← (selected error target : Action ω σ _) with
      | some conv => apply cb target error conv
      | none => return error) := by
  unfold coerce selected
  split
  · rfl
  · rcases hheld : target.holds? error.kindOf with _ | _ | _ <;> rcases target with t | v
    case some.false.kind =>
      funext c s
      simp only [Action.bind_apply, Action.context_apply]
      rcases c.registry.find? error.kindOf t with _ | conv
      · simp only [Action.bind_apply]
        rw [Action.note_apply]
        rfl
      · rfl
    case some.false.plain =>
      funext c s
      simp only [Action.bind_apply, Action.context_apply]
      rcases c.registry.stray? error.kindOf v with f | _ | conv <;> rfl
    all_goals rfl

end Conversion

namespace Course

/-- The steps of a conversion. -/
def coerce (cb : Callbacks ω σ) (error : Value ω) (target : Declared ω) :
    Course ω σ (Value ω) := do
  match ← (Conversion.selected error target : Action ω σ _) with
  | some conv => (Conversion.apply cb target error conv : Action ω σ _)
  | none => return error

def retarget (cb : Callbacks ω σ) (name : String) (source target : Declared ω)
    (res : Outcome ω) : Course ω σ (Outcome ω) := do
  if (← (source.kind? : Action ω σ _)).isInfallible then
    (do Action.fault (.infallibleFailed name (← (← res.error).shown?)) : Action ω σ _)
  else
    let error ← coerce cb (← res.error) target
    return .err error (← res.pos)

/-- What a function that may fail has returned, with the steps of the conversion. -/
def refined (cb : Callbacks ω σ) (target : Declared ω) (v : Value ω) :
    Course ω σ (Outcome ω) := do
  if v.isA .err then
    let error ← coerce cb (← v.get .error) target
    match ← v.get .pos with
    | .none => return .failedAt error (← (Action.save : Action ω σ _))
    | pos => return .err error pos
  else if v.isA .ok then return .ofValue v
  else return .ok v

/-- What follows the evaluation of a function that may fail: what was caught of it is converted. -/
def settled (cb : Callbacks ω σ) (target : Declared ω) :
    Except (Value ω) (Value ω) → Course ω σ (Outcome ω)
  | .error e => do
    let error ← coerce cb e target
    return .failedAt error (← (Action.save : Action ω σ _))
  | .ok w => refined cb target w

def repeated (name : String) (body : Course ω σ (Outcome ω)) :
    Nat → List (Value ω) → Course ω σ (List (Value ω))
  | 0, _ => monadLift (Action.exhausted : Action ω σ _)
  | n + 1, items => do
    let mark ← (Action.save : Action ω σ _)
    let res ← body
    if ← res.succeeded then
      (Parser.checkProgress .loops
        s!"many({name}) stopped: parser succeeded without consuming input" mark : Action ω σ _)
      repeated name body n ((← res.value) :: items)
    else
      (Action.rewindTo mark : Action ω σ _)
      return items.reverse

def separated (name : String) (item sep : Course ω σ (Outcome ω)) :
    Nat → List (Value ω) → Course ω σ (List (Value ω))
  | 0, _ => monadLift (Action.exhausted : Action ω σ _)
  | n + 1, items => do
    let mark ← (Action.save : Action ω σ _)
    if ← (← sep).succeeded then
      let res ← item
      if ← res.succeeded then
        (Parser.checkProgress .combinators
          s!"sep_by1({name}) stopped: separator and item consumed no input" mark : Action ω σ _)
        separated name item sep n ((← res.value) :: items)
      else
        (Action.rewindTo mark : Action ω σ _)
        return items.reverse
    else
      (Action.rewindTo mark : Action ω σ _)
      return items.reverse

def sepBy1 (cb : Callbacks ω σ) (name : String) (item sep : Course ω σ (Outcome ω)) :
    Course ω σ (Outcome ω) := do
  let first ← item
  if ← first.succeeded then
    return .ok (.list (← separated name item sep cb.rounds [← first.value]))
  else return first

section Act

variable {cb : Callbacks ω σ}

@[simp] theorem act_coerce (error : Value ω) (target : Declared ω) :
    (coerce cb error target).act cb = Conversion.coerce cb error target := by
  rw [coerce, act_bind, act_lift, Conversion.coerce_eq_selected]
  congr 1
  funext conv
  rcases conv with _ | conv
  · rfl
  · exact act_lift _

@[simp] theorem act_retarget (name : String) (source target : Declared ω) (res : Outcome ω) :
    (retarget cb name source target res).act cb =
      Parser.retarget cb name source target res := by
  simp [retarget, Parser.retarget]

@[simp] theorem act_refined (target : Declared ω) (v : Value ω) :
    (refined cb target v).act cb = Parser.refined cb target v := by
  unfold refined Parser.refined
  simp only [act_ite, act_bind, act_ask, act_coerce, act_pure]
  congr 1
  congr 1
  funext e
  congr 1
  funext error
  congr 1
  funext pos
  cases pos <;> rfl

@[simp] theorem act_settled (target : Declared ω) (r : Except (Value ω) (Value ω)) :
    (settled cb target r).act cb = match r with
      | .error e => do
        return .failedAt (← Conversion.coerce cb e target) (← Action.save)
      | .ok w => Parser.refined cb target w := by
  rcases r with e | w
  · simp [settled]
  · exact act_refined target w

@[simp] theorem act_repeated (name : String) (body : Course ω σ (Outcome ω)) :
    ∀ (n : Nat) (items : List (Value ω)),
      (repeated name body n items).act cb = Parser.repeated name (body.act cb) n items
  | 0, _ => act_lift _
  | n + 1, items => by
    simp [repeated, Parser.repeated, act_repeated name body n]

@[simp] theorem act_separated (name : String) (item sep : Course ω σ (Outcome ω)) :
    ∀ (n : Nat) (items : List (Value ω)),
      (separated name item sep n items).act cb =
        Parser.separated name (item.act cb) (sep.act cb) n items
  | 0, _ => act_lift _
  | n + 1, items => by
    simp [separated, Parser.separated, act_separated name item sep n]

@[simp] theorem act_sepBy1 (name : String) (item sep : Course ω σ (Outcome ω)) :
    (sepBy1 cb name item sep).act cb = Parser.runSepBy1 cb name (item.act cb) (sep.act cb) := by
  simp [sepBy1, Parser.runSepBy1]

end Act

end Course

namespace Parser

/-- The steps of a parser. -/
def course (cb : Callbacks ω σ) : Parser ω → Course ω σ (Outcome ω)
  | function name _ step => do
    let v ← (cb.step step : Action ω σ _)
    (normalise name v : Action ω σ _)
  | seq p q => do
    let target := Registry.joined p.declares q.declares
    let a ← .run p
    if ← a.succeeded then
      let b ← .run q
      if ← b.succeeded then
        let v ← a.value
        return .ok (.tuple [v, ← b.value])
      else .retarget cb q.name q.declares target b
    else .retarget cb p.name p.declares target a
  | bind p next => do
    let target := if p.declares.isInfallible then .undeclared else p.declares
    let res ← .run p
    if ← res.succeeded then
      let w ← (cb.call next (← res.value) : Action ω σ _)
      let q ← (Operand.ofValue cb.operand w).toParser none
      let out ← .resume q
      if ← out.succeeded then return out
      else .retarget cb q.name q.declares target out
    else .retarget cb p.name p.declares target res
  | map p f => do
    let res ← .run p
    if ← res.succeeded then return .ok (← (f.apply cb (← res.value) : Action ω σ _)) else return res
  | refine p f err => do
    let target := Registry.joined p.declares err
    let res ← .run p
    if ← res.succeeded then
      let r ← .attempt err f res
      .settled cb target r
    else .retarget cb p.name p.declares target res
  | convert p target => do
    let res ← .run p
    if ← res.succeeded then return res else .retarget cb p.name p.declares target res
  | mapErr p f _ => do
    let res ← .run p
    if ← res.succeeded then return res
    else
      let error ← (cb.call f (← res.error) : Action ω σ _)
      return .err error (← res.pos)
  | alt p q => do
    let mark ← (Action.save : Action ω σ _)
    let res ← .run p
    if ← res.succeeded then return res
    else
      (Action.rewindTo mark : Action ω σ _)
      let res ← .run q
      if ← res.succeeded then return res
      else
        (Action.rewindTo mark : Action ω σ _)
        .retarget cb q.name q.declares (Registry.joined p.declares q.declares) res
  | rewind p => do
    let mark ← (Action.save : Action ω σ _)
    let res ← .run p
    if ← res.succeeded then return res
    else
      (Action.rewindTo mark : Action ω σ _)
      return res
  | option default p => do
    let mark ← (Action.save : Action ω σ _)
    let res ← .run p
    if ← res.succeeded then return res
    else
      (Action.rewindTo mark : Action ω σ _)
      return .ok default
  | many p => do return .ok (.list (← .repeated p.name (.run p) cb.rounds []))
  | sepBy1 p s => .sepBy1 cb p.name (.run p) (.run s)
  | sepBy p s => do
    let mark ← (Action.save : Action ω σ _)
    let res ← .sepBy1 cb p.name (.run p) (.run s)
    if ← res.succeeded then return res
    else
      (Action.rewindTo mark : Action ω σ _)
      return .ok (.list [])
  | later _ factory => do
    let q ← (cb.force factory : Action ω σ _)
    .resume q
  | traced label p => do
    (runTrace label : Action ω σ _)
    let mark ← (Action.save : Action ω σ _)
    let res ← .run p
    if ← res.succeeded then
      (logShown .combinators (label ++ ": matched ") (← res.value) : Action ω σ _)
      return res
    else
      (Action.rewindTo mark : Action ω σ _)
      (runTrace (label ++ " backtracked") : Action ω σ _)
      (logShown .combinators (label ++ ": failed with ") (← res.error) : Action ω σ _)
      return res
  | p => monadLift (p.run cb : Action ω σ _)

/-- Taking the steps of a parser is running it. -/
theorem run_eq_act (cb : Callbacks ω σ) (p : Parser ω) : p.run cb = (p.course cb).act cb := by
  cases p
  case nextChar | word | whitespace | eof | take | pure | fail | trace =>
    exact (Course.act_lift _).symm
  case refine p f err =>
    rw [run]
    simp only [course, Course.act_bind, Course.act_ask, Course.act_run, Course.act_ite,
      Course.act_attempt, Course.act_settled, Course.act_retarget]
    rfl
  all_goals
    rw [run]
    simp [course]

end Parser

end ParserAlgebra
