import ParserAlgebra.Proofs.Courses
import ParserAlgebra.Proofs.Naturality
import ParserAlgebra.Proofs.Steps
import ParserAlgebra.Proofs.Valued

/-!
# Exceptions during a run

An exception that a step of a run raises (`Throws`) ends the run and is what the run raises, unless it
is raised where a function that may fail is evaluated and is of the kind that was declared for it
(`Parser.exceptions_pass`).
-/

namespace ParserAlgebra

variable {ω σ : Type} [HostObject ω]

/-- Where an exception comes from: from the evaluation of a function that may fail, for which an
error is declared, or from elsewhere. The evaluation first reads the value of an outcome. -/
inductive Origin (ω : Type) where
  | elsewhere
  | reading (err : Declared ω)
  | applying (err : Declared ω)

/-- An exception that is raised there is caught. -/
def Origin.catches : Origin ω → Value ω → Bool
  | elsewhere, _ => false
  | reading err, e => err.catches e.kindOf
  | applying err, e => err.catches e.kindOf

variable {α : Type} {h : Host ω σ} {rounds : Nat} {c : Context ω}

/-- When the steps are taken from the state `s`, one of them raises the exception `e` and leaves the
state `u`. At most `depth` parsers made during the run are nested in each other. -/
inductive Throws (h : Host ω σ) (rounds : Nat) (c : Context ω) : (depth : Nat) → {α : Type} →
    Course ω σ α → State ω σ → Origin ω → Value ω → State ω σ → Prop
  | step {n : Nat} {α β : Type} {x : Action ω σ β} {next : β → Course ω σ α} {s u : State ω σ}
      {e : Value ω} (hx : x c s = (.raised e, u)) :
      Throws h rounds c n (.step x next) s .elsewhere e u
  | afterStep {n : Nat} {α β : Type} {x : Action ω σ β} {next : β → Course ω σ α} {b : β}
      {s t u : State ω σ} {o : Origin ω} {e : Value ω} (hx : x c s = (.returned b, t))
      (hu : Throws h rounds c n (next b) t o e u) : Throws h rounds c n (.step x next) s o e u
  | reading {n : Nat} {α : Type} {err : Declared ω} {g : ω} {a : Outcome ω}
      {next : Except (Value ω) (Value ω) → Course ω σ α} {s : State ω σ} {f : Fault}
      (ha : a.value = .error f) :
      Throws h rounds c n (.evaluate err g a next) s (.reading err) f.exception s
  | applying {n : Nat} {α : Type} {err : Declared ω} {g : ω} {a : Outcome ω} {v : Value ω}
      {next : Except (Value ω) (Value ω) → Course ω σ α} {s u : State ω σ} {e : Value ω}
      (ha : a.value = .ok v) (hg : (h.callbacks rounds n).call g v c s = (.raised e, u)) :
      Throws h rounds c n (.evaluate err g a next) s (.applying err) e u
  | afterEvaluate {n : Nat} {α : Type} {err : Declared ω} {g : ω} {a : Outcome ω}
      {next : Except (Value ω) (Value ω) → Course ω σ α} {r : Except (Value ω) (Value ω)}
      {s t u : State ω σ} {o : Origin ω} {e : Value ω}
      (hr : Action.catching (fun e => err.catches e.kindOf)
        (Course.evaluation (h.callbacks rounds n) g a) c s = (.returned r, t))
      (hu : Throws h rounds c n (next r) t o e u) :
      Throws h rounds c n (.evaluate err g a next) s o e u
  | part {n : Nat} {α : Type} {p : Parser ω} {next : Outcome ω → Course ω σ α} {s u : State ω σ}
      {o : Origin ω} {e : Value ω}
      (hu : Throws h rounds c n (p.course (h.callbacks rounds n)) s o e u) :
      Throws h rounds c n (.part p next) s o e u
  | afterPart {n : Nat} {α : Type} {p : Parser ω} {next : Outcome ω → Course ω σ α}
      {a : Outcome ω} {s t u : State ω σ} {o : Origin ω} {e : Value ω}
      (hp : p.run (h.callbacks rounds n) c s = (.returned a, t))
      (hu : Throws h rounds c n (next a) t o e u) : Throws h rounds c n (.part p next) s o e u
  | made {n : Nat} {α : Type} {p : Parser ω} {next : Outcome ω → Course ω σ α} {s u : State ω σ}
      {o : Origin ω} {e : Value ω}
      (hu : Throws h rounds c n (p.course (h.callbacks rounds n)) s o e u) :
      Throws h rounds c (n + 1) (.made p next) s o e u
  | afterMade {n : Nat} {α : Type} {p : Parser ω} {next : Outcome ω → Course ω σ α}
      {a : Outcome ω} {s t u : State ω σ} {o : Origin ω} {e : Value ω}
      (hp : (h.callbacks rounds n).resume p c s = (.returned a, t))
      (hu : Throws h rounds c n (next a) t o e u) : Throws h rounds c n (.made p next) s o e u

/-! ## What is raised is raised to the caller -/

omit [HostObject ω] in
theorem catching_raised {P : Value ω → Bool} {x : Action ω σ α} {s u : State ω σ} {e : Value ω} :
    Action.catching P x c s = (.raised e, u) ↔ x c s = (.raised e, u) ∧ P e = false := by
  unfold Action.catching
  rcases x c s with ⟨a | e' | _, t⟩
  · simp
  · by_cases hP : P e' = true
    · simp only [if_pos hP, Prod.mk.injEq, reduceCtorEq, false_and, Answer.raised.injEq, false_iff]
      rintro ⟨⟨rfl, -⟩, he⟩
      rw [hP] at he
      cases he
    · simp only [if_neg hP, Prod.mk.injEq, Answer.raised.injEq]
      exact ⟨fun ⟨he, ht⟩ => ⟨⟨he, ht⟩, he ▸ Bool.eq_false_iff.2 hP⟩, And.left⟩
  · simp

section Evaluation

variable {cb : Callbacks ω σ} {g : ω} {a : Outcome ω} {s u : State ω σ}

theorem evaluation_of_error {f : Fault} (ha : a.value = .error f) :
    Course.evaluation cb g a c s = (.raised f.exception, s) := by
  rw [Course.evaluation, ha]
  rfl

theorem evaluation_of_ok {v : Value ω} (ha : a.value = .ok v) :
    Course.evaluation cb g a = cb.call g v := by
  rw [Course.evaluation, ha]
  rfl

end Evaluation

theorem Throws.raised {n : Nat} {x : Course ω σ α} {s u : State ω σ} {o : Origin ω} {e : Value ω}
    (ht : Throws h rounds c n x s o e u) (ho : o.catches e = false) :
    x.act (h.callbacks rounds n) c s = (.raised e, u) := by
  -- On the steps that were taken: each of them hands on what was raised.
  induction ht with
  | step hx => exact Action.bind_raised.2 (.inl hx)
  | afterStep hx _ ih => exact Action.bind_raised.2 (.inr ⟨_, _, hx, ih ho⟩)
  | reading ha =>
    exact Action.bind_raised.2 (.inl (catching_raised.2 ⟨evaluation_of_error ha, ho⟩))
  | applying ha hg =>
    refine Action.bind_raised.2 (.inl (catching_raised.2 ⟨?_, ho⟩))
    rw [evaluation_of_ok ha, hg]
  | afterEvaluate hr _ ih => exact Action.bind_raised.2 (.inr ⟨_, _, hr, ih ho⟩)
  | part _ ih =>
    refine Action.bind_raised.2 (.inl ?_)
    rw [Parser.run_eq_act]
    exact ih ho
  | afterPart hp _ ih => exact Action.bind_raised.2 (.inr ⟨_, _, hp, ih ho⟩)
  | made _ ih =>
    refine Action.bind_raised.2 (.inl ?_)
    exact (congrFun (congrFun (Parser.run_eq_act _ _) c) _).trans (ih ho)
  | afterMade hp _ ih => exact Action.bind_raised.2 (.inr ⟨_, _, hp, ih ho⟩)

/-! ## The parts of a course -/

/-- All parts that are run satisfy `P`. If their outcomes satisfy `V`, those with whose value a
function that may fail is called satisfy `E`. -/
def Course.Over (P : Parser ω → Prop) (V E : Outcome ω → Prop) : Course ω σ α → Prop
  | done _ => True
  | step x next => ∀ c s b t, x c s = (.returned b, t) → (next b).Over P V E
  | evaluate _ _ a next => E a ∧ ∀ r, (next r).Over P V E
  | part p next => P p ∧ ∀ a, V a → (next a).Over P V E
  | made _ next => ∀ a, V a → (next a).Over P V E

namespace Course.Over

variable {β : Type} {cb : Callbacks ω σ} {P : Parser ω → Prop} {V E : Outcome ω → Prop}

section Bind

variable {f : α → Course ω σ β}

omit [HostObject ω]

@[simp] theorem over_pure (a : α) : (pure a : Course ω σ α).Over P V E := trivial

@[simp] theorem over_lift (x : Action ω σ α) : (monadLift x : Course ω σ α).Over P V E :=
  fun _ _ _ _ _ => trivial

@[simp] theorem over_resume (p : Parser ω) : (resume p : Course ω σ _).Over P V E :=
  fun _ _ => trivial

@[simp] theorem over_lift_bind (x : Action ω σ α) :
    ((monadLift x : Course ω σ α) >>= f).Over P V E ↔
      ∀ c s a t, x c s = (.returned a, t) → (f a).Over P V E := Iff.rfl

@[simp] theorem over_run_bind (p : Parser ω) {f : Outcome ω → Course ω σ β} :
    (run p >>= f).Over P V E ↔ P p ∧ ∀ a, V a → (f a).Over P V E := Iff.rfl

@[simp] theorem over_resume_bind (p : Parser ω) {f : Outcome ω → Course ω σ β} :
    (resume p >>= f).Over P V E ↔ ∀ a, V a → (f a).Over P V E := Iff.rfl

@[simp] theorem over_attempt_bind (err : Declared ω) (g : ω) (a : Outcome ω)
    {f : Except (Value ω) (Value ω) → Course ω σ β} :
    (attempt err g a >>= f).Over P V E ↔ E a ∧ ∀ r, (f r).Over P V E := Iff.rfl

@[simp] theorem over_ite {Q : Prop} [Decidable Q] {x y : Course ω σ α} :
    (if Q then x else y).Over P V E ↔ (Q → x.Over P V E) ∧ (¬ Q → y.Over P V E) := by
  split <;> simp [*]

theorem bind {x : Course ω σ α} (hx : x.Over P V E) (hf : ∀ a, (f a).Over P V E) :
    (x >>= f).Over P V E := by
  induction x with
  | done a => exact hf a
  | step _ _ ih => exact fun c s b t hb => ih b (hx c s b t hb)
  | evaluate _ _ _ _ ih => exact ⟨hx.1, fun r => ih r (hx.2 r)⟩
  | part _ _ ih => exact ⟨hx.1, fun a ha => ih a (hx.2 a ha)⟩
  | made _ _ ih => exact fun a ha => ih a (hx a ha)

end Bind

variable [Nonempty σ]

omit [HostObject ω] in
@[simp] theorem over_ask_bind (x : Except Fault α) {f : α → Course ω σ β} :
    ((monadLift x : Course ω σ α) >>= f).Over P V E ↔ ∀ a, x = .ok a → (f a).Over P V E := by
  obtain ⟨own⟩ := ‹Nonempty σ›
  constructor
  · rintro h a rfl
    exact h ⟨.empty, {}, .warning⟩ ⟨.ofList [], [], own⟩ a _ rfl
  · intro h c s a t ha
    exact h a (Action.ask_returned.1 ha).1

omit [Nonempty σ] in
theorem coerce (error : Value ω) (target : Declared ω) :
    (Course.coerce cb error target).Over P V E := by
  refine (over_lift_bind _).2 fun c s conv t _ => ?_
  cases conv <;> simp

@[simp] theorem over_retarget (name : String) (source target : Declared ω) (res : Outcome ω) :
    (retarget cb name source target res).Over P V E := by
  simp only [retarget, over_lift_bind, over_ask_bind, over_ite]
  exact fun _ _ _ _ _ => ⟨fun _ => over_lift _, fun _ _ _ => (coerce _ _).bind (by simp)⟩

@[simp] theorem over_refined (target : Declared ω) (v : Value ω) :
    (refined cb target v).Over P V E := by
  simp only [refined, over_ask_bind, over_ite]
  refine ⟨fun _ _ _ => (coerce _ _).bind fun error => (over_ask_bind _).2 fun pos _ => ?_, by simp⟩
  cases pos <;> simp

@[simp] theorem over_settled (target : Declared ω) (r : Except (Value ω) (Value ω)) :
    (settled cb target r).Over P V E := by
  rcases r with e | w
  · exact (coerce _ _).bind (by simp)
  · exact over_refined target w

theorem repeated (name : String) (p : Parser ω) (hp : P p) (n : Nat) (items : List (Value ω)) :
    (Course.repeated name (run p) n items : Course ω σ _).Over P V E := by
  induction n generalizing items with
  | zero => exact over_lift _
  | succ n ih => simp [Course.repeated, hp, ih]

theorem separated (name : String) (p q : Parser ω) (hp : P p) (hq : P q) (n : Nat)
    (items : List (Value ω)) :
    (Course.separated name (run p) (run q) n items : Course ω σ _).Over P V E := by
  induction n generalizing items with
  | zero => exact over_lift _
  | succ n ih => simp [Course.separated, hp, hq, ih]

theorem sepBy1 (name : String) (p q : Parser ω) (hp : P p) (hq : P q) :
    (Course.sepBy1 cb name (run p) (run q)).Over P V E := by
  simp only [Course.sepBy1, over_run_bind, over_ask_bind, over_ite, over_pure]
  exact ⟨hp, fun _ _ _ _ => ⟨fun _ _ _ => (separated name p q hp hq _ _).bind (by simp), by simp⟩⟩

/-- What holds of a parser when it holds of the parts that it runs holds of every part. A function that
may fail is called after a success. -/
theorem course (hE : ∀ a, V a → a.succeeded = .ok true → E a)
    (hP : ∀ p, (p.course cb).Over P V E → P p) (p : Parser ω) : (p.course cb).Over P V E := by
  induction p with
  | many p hp => exact (repeated _ p (hP p hp) _ _).bind (by simp)
  | sepBy1 p q hp hq => exact sepBy1 _ p q (hP p hp) (hP q hq)
  | sepBy p q hp hq =>
    refine (over_lift_bind _).2 fun _ _ mark _ _ => ?_
    exact (sepBy1 _ p q (hP p hp) (hP q hq)).bind (by simp)
  | refine p f err hp =>
    simp only [Parser.course, over_run_bind, over_ask_bind, over_ite, over_attempt_bind]
    refine ⟨hP p hp, fun a ha b hb => ⟨fun htrue => ⟨hE a ha (htrue ▸ hb), by simp⟩, by simp⟩⟩
  | seq p q hp hq | alt p q hp hq => simp [Parser.course, hP p hp, hP q hq]
  | bind p _ hp | map p _ hp | convert p _ hp | mapErr p _ _ hp | rewind p hp
  | option _ p hp | traced _ p hp => simp [Parser.course, hP p hp]
  | function | nextChar | word | whitespace | eof | take | pure | fail | later | trace =>
    simp [Parser.course]

end Course.Over

/-! ## What the caller sees was raised by a step -/

/-- Every exception that a run of the parser raises was raised by a step, and not caught. -/
def Traced (h : Host ω σ) (rounds : Nat) (c : Context ω) (n : Nat) (p : Parser ω) : Prop :=
  ∀ s e u, p.run (h.callbacks rounds n) c s = (.raised e, u) →
    ∃ o, Throws h rounds c n (p.course (h.callbacks rounds n)) s o e u ∧ o.catches e = false

theorem exists_throws {n : Nat} {x : Course ω σ α}
    (hx : x.Over (Traced h rounds c n) (fun _ => True) fun _ => True)
    (hmade : ∀ m, n = m + 1 → ∀ p, Traced h rounds c m p) {s u : State ω σ} {e : Value ω}
    (hu : x.act (h.callbacks rounds n) c s = (.raised e, u)) :
    ∃ o, Throws h rounds c n x s o e u ∧ o.catches e = false := by
  -- On the steps: either the first one raised it, or one of those that follow.
  induction x generalizing s with
  | done a => cases hu
  | step x next ih =>
    rcases Action.bind_raised.1 hu with hr | ⟨b, t, hr, hu⟩
    · exact ⟨.elsewhere, .step hr, rfl⟩
    · obtain ⟨o, ho, hc⟩ := ih b (hx c s b t hr) hu
      exact ⟨o, .afterStep hr ho, hc⟩
  | evaluate err g a next ih =>
    rcases Action.bind_raised.1 hu with hr | ⟨r, t, hr, hu⟩
    · obtain ⟨hr, hc⟩ := catching_raised.1 hr
      rcases ha : a.value with f | v
      · rw [evaluation_of_error ha] at hr
        cases hr
        exact ⟨.reading err, .reading ha, hc⟩
      · rw [evaluation_of_ok ha] at hr
        exact ⟨.applying err, .applying ha hr, hc⟩
    · obtain ⟨o, ho, hc⟩ := ih r (hx.2 r) hu
      exact ⟨o, .afterEvaluate hr ho, hc⟩
  | part p next ih =>
    rcases Action.bind_raised.1 hu with hr | ⟨a, t, hr, hu⟩
    · obtain ⟨o, ho, hc⟩ := hx.1 s e u hr
      exact ⟨o, .part ho, hc⟩
    · obtain ⟨o, ho, hc⟩ := ih a (hx.2 a trivial) hu
      exact ⟨o, .afterPart hr ho, hc⟩
  | made p next ih =>
    rcases Action.bind_raised.1 hu with hr | ⟨a, t, hr, hu⟩
    · cases n with
      | zero => cases hr
      | succ m =>
        obtain ⟨o, ho, hc⟩ := hmade m rfl p s e u hr
        exact ⟨o, .made ho, hc⟩
    · obtain ⟨o, ho, hc⟩ := ih a (hx a trivial) hu
      exact ⟨o, .afterMade hr ho, hc⟩

theorem all_traced [Nonempty σ] (n : Nat) (p : Parser ω) : Traced h rounds c n p := by
  -- Fewer parsers are nested in each other inside a parser that was made.
  induction n using Nat.strongRecOn generalizing p with
  | ind n ih =>
    have hP (p : Parser ω) (hp : (p.course (h.callbacks rounds n)).Over (Traced h rounds c n)
        (fun _ => True) fun _ => True) : Traced h rounds c n p := fun s e u hu =>
      exists_throws hp (fun m hm => ih m (by omega)) (Parser.run_eq_act _ p ▸ hu)
    exact hP p (.course (fun _ _ _ => trivial) hP p)

/-! ## Where a value cannot be read -/

/-- The values of outcomes with which functions that may fail are called can be read, if no outcome
is a success without a value. -/
def Course.Readable (x : Course ω σ α) : Prop :=
  x.Over (fun _ => True) Outcome.Valued fun a => ∃ v, a.value = .ok v

theorem readable_course [Nonempty σ] (cb : Callbacks ω σ) (p : Parser ω) :
    (p.course cb).Readable :=
  .course (fun _ ha hs => ha hs) (fun _ _ => trivial) p

theorem Throws.ne_reading [Nonempty σ] (hh : h.Valued c) {n : Nat} {x : Course ω σ α}
    {s u : State ω σ} {o : Origin ω} {e : Value ω} (ht : Throws h rounds c n x s o e u)
    (hx : x.Readable) (err : Declared ω) : o ≠ .reading err := by
  -- On the steps that were taken: every outcome among them has a value if it is a success.
  induction ht with
  | step => nofun
  | afterStep hr _ ih => exact ih (hx _ _ _ _ hr)
  | reading ha =>
    obtain ⟨v, hv⟩ := hx.1
    cases ha.symm.trans hv
  | applying => nofun
  | afterEvaluate _ _ ih => exact ih (hx.2 _)
  | part _ ih => exact ih (readable_course _ _)
  | afterPart hp _ ih =>
    exact ih (hx.2 _ ((Parser.valued_run (hh.callbacks _) _).returned hp))
  | made _ ih => exact ih (readable_course _ _)
  | afterMade hp _ ih => exact ih (hx _ (((hh.callbacks _).resume _).returned hp))

namespace Parser

/-- An exception that a step raises ends the run and is what the caller sees, unless it is raised by the
evaluation of a function that may fail and is of the kind that was declared for it, where that is a kind
of exceptions. Then it becomes the failure of that parser. The evaluation begins with reading the value
of an outcome, which fails for none if the host program makes no success that has no value. -/
theorem exceptions_pass (h : Host ω σ) (rounds : Nat) (c : Context ω) :
    (∀ depth (p : Parser ω) s e u, p.run (h.callbacks rounds depth) c s = (.raised e, u) ↔
      ∃ o, Throws h rounds c depth (p.course (h.callbacks rounds depth)) s o e u ∧
        o.catches e = false) ∧
    (∀ (cb : Callbacks ω σ) p f err a s t e u, p.run cb c s = (.returned a, t) →
      a.succeeded = .ok true → Course.evaluation cb f a c t = (.raised e, u) →
      err.catches e.kindOf = true →
      (refine p f err).run cb c s =
        (do
          let error ← Conversion.coerce cb e (refine p f err).declares
          return .failedAt error (← Action.save) : Action ω σ (Outcome ω)) c u) ∧
    (∀ (o : Origin ω) e, o.catches e = true ↔ ∃ k : Kind,
      (o = .reading (.kind k) ∨ o = .applying (.kind k)) ∧ k.isException = true ∧
        e.kindOf.isA k = true) ∧
    (h.Valued c → ∀ depth (p : Parser ω) s o e u,
      Throws h rounds c depth (p.course (h.callbacks rounds depth)) s o e u →
        ∀ err, o ≠ .reading err) := by
  refine ⟨fun depth p s e u => ?_, fun cb p f err a s t e u hp ha he hc => ?_, fun o e => ?_,
    fun hh depth p s o e u ht => ?_⟩
  · have : Nonempty σ := ⟨s.own⟩
    refine ⟨all_traced depth p s e u, ?_⟩
    rintro ⟨o, ho, hc⟩
    rw [run_eq_act]
    exact ho.raised hc
  · exact run_refine_of_caught hp ha he hc
  · constructor
    · intro hc
      rcases o with _ | (k | v) | (k | v)
      case reading.kind | applying.kind =>
        exact ⟨k, by simp, Bool.and_eq_true_iff.1 hc⟩
      all_goals cases hc
    · rintro ⟨k, rfl | rfl, hc⟩
      all_goals exact Bool.and_eq_true_iff.2 hc
  · have : Nonempty σ := ⟨s.own⟩
    exact ht.ne_reading hh (readable_course _ p)

/-- A function that may fail raises an exception of another kind than the declared one, which passes an
option by, or of the declared one. -/
theorem exceptions_pass_pure :
    let c : Context Maker := ⟨.empty, {}, .warning⟩
    let cb := Maker.host.callbacks 1 1
    let s : State Maker Unit := ⟨.ofList ['a'], [], ()⟩
    let e : Value Maker := Fault.tooManyDigits.exception
    let written (err : Kind) : Parser Maker :=
      .refine (.pure (.int Numeral.writeLimit)) .pure (.kind err)
    Maker.host.Valued c ∧ (option .none (written .takeError)).run cb c s = (.raised e, s) ∧
      (∃ o, Throws Maker.host 1 c 1 ((option .none (written .takeError)).course cb) s o e s ∧
        o.catches e = false ∧ ∀ err, o ≠ .reading err) ∧
      (written .valueError).run cb c s = (.returned (.err e (.int 0)), s) := by
  intro c cb s e written
  obtain ⟨htraced, hcaught, -, hread⟩ := exceptions_pass Maker.host 1 c
  have hcall : cb.call .pure (.int Numeral.writeLimit) c s = (.raised e, s) := by
    change (do return .host (.parser (← mkPure (.int Numeral.writeLimit))) :
      Action Maker Unit (Value Maker)) c s = (.raised e, s)
    rw [mkPure, Value.shown?_writeLimit]
    rfl
  have ho : Throws Maker.host 1 c 1 ((option .none (written .takeError)).course cb) s
      (.applying (.kind .takeError)) e s :=
    .afterStep rfl (.part (.afterPart rfl (.afterStep rfl (.applying rfl hcall))))
  have hc : (Origin.applying (.kind .takeError) : Origin Maker).catches e = false := by decide
  have he : Course.evaluation cb .pure (.ok (.int Numeral.writeLimit)) c s = (.raised e, s) := by
    rw [evaluation_of_ok (Outcome.value_ok _), hcall]
  refine ⟨Maker.host_valued, (htraced 1 _ s e s).2 ⟨_, ho, hc⟩,
    ⟨_, ho, hc, hread Maker.host_valued 1 _ s _ e s ho⟩, ?_⟩
  exact hcaught cb _ .pure (.kind .valueError) _ s s e s rfl rfl he (by decide)

/-- An exception whose kind is also that of a success has no value. What is raised when its value is read
is not raised by the function that may fail, and becomes the failure that an option replaces. -/
theorem reading_caught :
    let kind : Kind := .mk "Y" 1 [.valueError, .ok]
    Kind.derive? "Y" 1 [.valueError, .ok] = some kind ∧
      ∃ (v : Value Assignment.Function) (f : Fault), Value.construct kind [.str "a"] = .ok v ∧
        let h : Host Assignment.Function Unit :=
          { Assignment.host with step := fun _ _ => Pure.pure v }
        let c : Context Assignment.Function := ⟨.empty, {}, .warning⟩
        let s : State Assignment.Function Unit := ⟨.ofList [], [], ()⟩
        let p : Parser Assignment.Function :=
          .refine (.function "body" .undeclared .assignment) .assignment (.kind .exception)
        Throws h 1 c 1 (p.course (h.callbacks 1 1)) s (.reading (.kind .exception)) f.exception s ∧
          (option (.int 7) p).run (h.callbacks 1 1) c s = (.returned (.ok (.int 7)), s) := by
  exact ⟨rfl, _, _, rfl, .afterPart rfl (.afterStep rfl (.reading rfl)), rfl⟩

end Parser

end ParserAlgebra
