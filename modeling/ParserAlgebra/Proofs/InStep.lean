import ParserAlgebra.Proofs.Observed

/-!
# Actions in step

Two actions are in step if from each state they end alike (`Action.InStep`): both return, in one state, and
what they return is related; or both raise, and the exceptions look the same; or both run out of steps. The
rules follow the monad. Two repetitions are in step if their attempts are (`Parser.inStep_looped`), whatever
they write to the log when they stand still.
-/

namespace ParserAlgebra

variable {ω σ α α' β β' γ : Type} {c : Context ω} {seen : Value ω → γ}

namespace Action

/-- The runs have ended alike: what is returned is related by `P`, and the exceptions are the same as far as
`seen` shows them. -/
inductive Paired (seen : Value ω → γ) (P : α → β → Prop) :
    Answer ω α × State ω σ → Answer ω β × State ω σ → Prop
  | returned {a : α} {b : β} (h : P a b) (t : State ω σ) :
      Paired seen P (.returned a, t) (.returned b, t)
  | raised {e e' : Value ω} {t t' : State ω σ} (he : seen e = seen e') (ht : t.Alike id t') :
      Paired seen P (.raised e, t) (.raised e', t')
  | exhausted (t : State ω σ) : Paired seen P (.exhausted, t) (.exhausted, t)

theorem Paired.same {x y : Answer ω α × State ω σ} (h : Paired id Eq x y) :
    x.1 = y.1 ∧ x.2.cursor = y.2.cursor := by
  cases h with
  | returned h t => exact ⟨congrArg Answer.returned h, rfl⟩
  | raised he ht => exact ⟨congrArg Answer.raised he, ht.cursor⟩
  | exhausted t => exact ⟨rfl, rfl⟩

def InStep (c : Context ω) (seen : Value ω → γ) (P : α → β → Prop) (x : Action ω σ α)
    (y : Action ω σ β) : Prop :=
  ∀ s, Paired seen P (x c s) (y c s)

namespace InStep

variable {P : α → β → Prop} {Q : α' → β' → Prop} {x : Action ω σ α} {y : Action ω σ β}

protected theorem pure {a : α} {b : β} (h : P a b) :
    InStep (σ := σ) c seen P (Pure.pure a) (Pure.pure b) := fun s => .returned h s

protected theorem fault {f g : Fault} (h : seen f.exception = seen g.exception) :
    InStep (σ := σ) c seen P (fault f) (fault g) := fun s => .raised h (.refl s)

protected theorem exhausted : InStep (σ := σ) c seen P exhausted exhausted := fun s => .exhausted s

theorem mono {P' : α → β → Prop} (h : InStep c seen P x y) (hP : ∀ a b, P a b → P' a b) :
    InStep c seen P' x y := by
  intro s
  have hs := h s
  generalize x c s = xs, y c s = ys at hs
  cases hs with
  | returned h t => exact .returned (hP _ _ h) t
  | raised he ht => exact .raised he ht
  | exhausted t => exact .exhausted t

theorem congr_left {x' : Action ω σ α} (h : x c = x' c) (hx : InStep c seen P x' y) :
    InStep c seen P x y := by
  unfold InStep
  rw [h]
  exact hx

theorem congr_right {y' : Action ω σ β} (h : y c = y' c) (hx : InStep c seen P x y') :
    InStep c seen P x y := by
  unfold InStep
  rw [h]
  exact hx

protected theorem bind {f : α → Action ω σ α'} {g : β → Action ω σ β'} (hx : InStep c seen P x y)
    (hf : ∀ a b, P a b → InStep c seen Q (f a) (g b)) : InStep c seen Q (x >>= f) (y >>= g) := by
  intro s
  have hs := hx s
  rw [bind_apply, bind_apply]
  generalize x c s = xs, y c s = ys at hs
  cases hs with
  | returned h t => exact hf _ _ h t
  | raised he ht => exact .raised he ht
  | exhausted t => exact .exhausted t

/-- What goes on from one action is asked only of what that one returns. -/
theorem after_ensures {R : α → Prop} {S : Value ω → Prop} {f : α → Action ω σ α'}
    {g : α → Action ω σ β'} (hx : x.Ensures c R S) (hf : ∀ a, R a → InStep c seen Q (f a) (g a)) :
    InStep c seen Q (x >>= f) (x >>= g) := by
  intro s
  rw [bind_apply, bind_apply]
  rcases hr : x c s with ⟨a | e | _, t⟩
  · exact hf a (hx.returned hr) t
  · exact .raised rfl (.refl t)
  · exact .exhausted t

theorem after {f : α → Action ω σ α'} {g : α → Action ω σ β'}
    (hf : ∀ a, InStep c seen Q (f a) (g a)) : InStep c seen Q (x >>= f) (x >>= g) :=
  after_ensures (.any x) fun a _ => hf a

theorem ask {q : Except Fault α} {f : α → Action ω σ α'} {g : α → Action ω σ β'}
    (hf : ∀ a, q = .ok a → InStep c seen Q (f a) (g a)) :
    InStep c seen Q (liftM q >>= f) (liftM q >>= g) := by
  rcases q with e | a
  · exact fun s => .raised rfl (.refl s)
  · exact hf a rfl

theorem ifSucceeded [HostObject ω] {res : Outcome ω} {x' : Action ω σ α} {y' : Action ω σ β}
    (h : res.succeeded = .ok true → InStep c seen P x y)
    (h' : res.succeeded = .ok false → InStep c seen P x' y') :
    InStep c seen P (do if ← res.succeeded then x else x') (do if ← res.succeeded then y else y') := by
  refine ask fun b hb => ?_
  cases b
  · exact h' hb
  · exact h hb

end InStep

end Action

variable [HostObject ω]

/-- A success, with the value mapped by `M`, and a failure: two of them are related by `R`. -/
inductive Outcome.Mapped (M : Value ω → Value ω) (R : Outcome ω → Outcome ω → Prop) :
    Outcome ω → Outcome ω → Prop
  | success {a b : Outcome ω} {v : Value ω} (ha : a.succeeded = .ok true) (hv : a.value = .ok v)
      (hb : b.succeeded = .ok true) (hw : b.value = .ok (M v)) : Mapped M R a b
  | failure {a b : Outcome ω} (ha : a.succeeded = .ok false) (hb : b.succeeded = .ok false)
      (h : R a b) : Mapped M R a b

namespace Parser

open ParserAlgebra.Action

variable {ch ch' : Level.Channel} {message message' : String} {M : Value ω → Value ω}
  {R : Outcome ω → Outcome ω → Prop} {x y : Action ω σ (Outcome ω)}

theorem inStep_checkProgress (m : Mark ω) : InStep (σ := σ) c seen (fun _ _ => True)
    (checkProgress ch message m) (checkProgress ch' message' m) := by
  refine .after fun n => .ask fun still _ => ?_
  split
  · refine .after fun d => .ask fun on _ => ?_
    split
    · intro s
      obtain ⟨t, ht, hlog⟩ := log_returned (c := c) .warning ch message s
      obtain ⟨t', ht', hlog'⟩ := log_returned (c := c) .warning ch' message' s
      rw [raise_standstill, bind_apply, bind_apply, hlog, hlog']
      exact .raised rfl (ht.trans ht'.symm)
    · exact .pure trivial
  · exact .pure trivial

/-- Attempts whose values are mapped gather a list that is mapped. -/
theorem inStep_looped (hxy : InStep c seen (Outcome.Mapped M R) x y) :
    ∀ (n : Nat) (done : List (Value ω)), InStep c seen (fun vs ws => ws = vs.map M)
      (looped ch message x n done) (looped ch' message' y n (done.map M))
  | 0, _ => .exhausted
  | n + 1, done => by
    rw [looped, looped]
    refine .after fun m => .bind hxy fun a b hab => ?_
    cases hab with
    | success ha hv hb hw =>
      simp only [ha, hb, hv, hw, monadLift_ok, pure_bind, if_true]
      exact .bind (inStep_checkProgress m) fun _ _ _ => inStep_looped hxy n _
    | failure ha hb _ =>
      simp only [ha, hb, monadLift_ok, pure_bind, Bool.false_eq_true, if_false]
      exact .after fun _ => .pure List.map_reverse.symm

/-- What was gathered before comes first. -/
theorem looped_done (ch : Level.Channel) (message : String) (x : Action ω σ (Outcome ω)) :
    ∀ (n : Nat) (done : List (Value ω)), looped ch message x n done =
      (do return done.reverse ++ (← looped ch message x n []) : Action ω σ (List (Value ω)))
  | 0, _ => rfl
  | n + 1, done => by
    rw [looped, looped, bind_assoc]
    refine congrArg _ (funext fun m => ?_)
    rw [bind_assoc]
    refine congrArg _ (funext fun a => ?_)
    rcases a.succeeded with f | _ | _
    · rfl
    · simp
    · simp only [monadLift_ok, pure_bind, if_true, bind_assoc]
      refine congrArg _ (funext fun _ => ?_)
      rcases a.value with f | v
      · rfl
      · simp only [monadLift_ok, pure_bind, looped_done ch message x n (v :: done),
          looped_done ch message x n [v], bind_assoc]
        simp

/-- Parsers whose runs are in step behave alike, however many rounds and however much depth these need. -/
theorem behavesAs_of_inStep {h : Host ω σ} {p q : Parser ω}
    (hpq : ∀ rounds depth, InStep c id Eq (p.observed (h.callbacks rounds depth))
      (q.observed (h.callbacks rounds depth))) : p.BehavesAs h c q := by
  intro s answer d
  have hsame (rounds depth : Nat) := (hpq rounds depth s).same
  simp only [EndsWith, hsame]

end Parser

end ParserAlgebra
