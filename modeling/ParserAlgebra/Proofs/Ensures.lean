import ParserAlgebra.Proofs.Questions

/-!
# What an action ensures

`Action.Ensures c P R x` says that in the context `c`, from every state, the action `x` returns only
what satisfies `P` and raises only what satisfies `R`; it may also run out of steps. What one action
ensures is handed on to the next by `Ensures.bind`. Where `R` lets the mild faults pass
(`Lenient`), a question about a value may be asked anywhere (`Ensures.ask`).
-/

namespace ParserAlgebra

variable {ω σ α β : Type}

/-- Mild faults may be raised. -/
def Lenient (R : Value ω → Prop) : Prop := ∀ f : Fault, f.isMild = true → R f.exception

theorem lenient_any : Lenient (fun _ : Value ω => True) := fun _ _ => trivial

namespace Action

theorem bind_returned {x : Action ω σ α} {f : α → Action ω σ β} {c : Context ω}
    {s t : State ω σ} {b : β} :
    (x >>= f) c s = (.returned b, t) ↔
      ∃ a u, x c s = (.returned a, u) ∧ f a c u = (.returned b, t) := by
  rw [bind_apply]
  rcases x c s with ⟨a | e | _, u⟩ <;> simp [and_assoc]

theorem bind_raised {x : Action ω σ α} {f : α → Action ω σ β} {c : Context ω}
    {s t : State ω σ} {e : Value ω} :
    (x >>= f) c s = (.raised e, t) ↔
      x c s = (.raised e, t) ∨ ∃ a u, x c s = (.returned a, u) ∧ f a c u = (.raised e, t) := by
  rw [bind_apply]
  rcases x c s with ⟨a | e | _, u⟩ <;> simp [and_assoc]

/-- From every state, only what satisfies `P` is returned and only what satisfies `R` is raised. -/
structure Ensures (c : Context ω) (P : α → Prop) (R : Value ω → Prop) (x : Action ω σ α) :
    Prop where
  returned : ∀ {s a t}, x c s = (.returned a, t) → P a
  raised : ∀ {s e t}, x c s = (.raised e, t) → R e

namespace Ensures

variable {c : Context ω} {P Q : α → Prop} {R S : Value ω → Prop} {T : β → Prop}
  {x y : Action ω σ α}

theorem mono (h : x.Ensures c P R) (hQ : ∀ a, P a → Q a) (hS : ∀ e, R e → S e) :
    x.Ensures c Q S :=
  ⟨fun hx => hQ _ (h.returned hx), fun hx => hS _ (h.raised hx)⟩

theorem any (x : Action ω σ α) : x.Ensures c (fun _ => True) fun _ => True :=
  ⟨fun _ => trivial, fun _ => trivial⟩

protected theorem pure {a : α} (h : P a) : (Pure.pure a : Action ω σ α).Ensures c P R := by
  refine ⟨fun hx => ?_, fun hx => by simp at hx⟩
  simp only [pure_apply, Prod.mk.injEq, Answer.returned.injEq] at hx
  exact hx.1 ▸ h

protected theorem bind {f : α → Action ω σ β} (hx : x.Ensures c P R)
    (hf : ∀ a, P a → (f a).Ensures c T R) : (x >>= f).Ensures c T R := by
  refine ⟨fun h => ?_, fun h => ?_⟩
  · obtain ⟨a, u, ha, hb⟩ := bind_returned.1 h
    exact (hf a (hx.returned ha)).returned hb
  · rcases bind_raised.1 h with h | ⟨a, u, ha, hb⟩
    · exact hx.raised h
    · exact (hf a (hx.returned ha)).raised hb

protected theorem raise {e : Value ω} (h : R e) : (raise e : Action ω σ α).Ensures c P R := by
  refine ⟨fun hx => by simp at hx, fun hx => ?_⟩
  simp only [raise_apply, Prod.mk.injEq, Answer.raised.injEq] at hx
  exact hx.1 ▸ h

protected theorem fault {f : Fault} (h : R f.exception) :
    (fault f : Action ω σ α).Ensures c P R := .raise h

protected theorem exhausted : (exhausted : Action ω σ α).Ensures c P R :=
  ⟨fun hx => by simp at hx, fun hx => by simp at hx⟩

theorem save : (save : Action ω σ (Mark ω)).Ensures c (fun _ => True) R :=
  ⟨fun _ => trivial, fun hx => by simp at hx⟩

theorem rewindTo (m : Mark ω) : (rewindTo m : Action ω σ Unit).Ensures c (fun _ => True) R :=
  ⟨fun _ => trivial, fun hx => by simp at hx⟩

theorem cursor : (cursor : Action ω σ (Cursor ω)).Ensures c (fun _ => True) R :=
  ⟨fun _ => trivial, fun hx => by simp at hx⟩

theorem setCursor (d : Cursor ω) : (setCursor d : Action ω σ Unit).Ensures c (fun _ => True) R :=
  ⟨fun _ => trivial, fun hx => by simp at hx⟩

theorem context : (context : Action ω σ (Context ω)).Ensures c (· = c) R := by
  refine ⟨fun hx => ?_, fun hx => by simp at hx⟩
  simp only [context_apply, Prod.mk.injEq, Answer.returned.injEq] at hx
  exact hx.1.symm

theorem log (l : Level) (ch : Level.Channel) (m : String) :
    (log l ch m : Action ω σ Unit).Ensures c (fun _ => True) R :=
  ⟨fun _ => trivial, fun hx => by simp [Action.log] at hx⟩

theorem note (l : Level) (ch : Level.Channel) (m : Except Fault String) :
    (note l ch m : Action ω σ Unit).Ensures c (fun _ => True) R := by
  rcases m with f | m
  · rw [note_error]
    exact .pure trivial
  · rw [note_ok]
    exact .log l ch m

theorem writes (l : Level) : (writes l : Action ω σ Bool).Ensures c (fun _ => True) R :=
  ⟨fun _ => trivial, fun hx => by simp [Action.writes] at hx⟩

/-- What is raised and satisfies `p` is caught, and handed on. -/
theorem catching {p : Value ω → Bool} (hx : x.Ensures c P S)
    (hp : ∀ e, S e → p e = false → R e) :
    (catching p x).Ensures c (fun r => match r with
      | .ok a => P a
      | .error e => S e ∧ p e = true) R := by
  refine ⟨fun {s r t} h => ?_, fun {s e t} h => ?_⟩ <;>
    rcases hs : x c s with ⟨a | e | _, u⟩ <;> simp only [Action.catching, hs] at h
  · obtain ⟨rfl, -⟩ := by simpa using h
    exact hx.returned hs
  · split at h <;> rename_i hpe
    · obtain ⟨rfl, -⟩ := by simpa using h
      exact ⟨hx.raised hs, hpe⟩
    · simp at h
  · simp at h
  · simp at h
  · split at h <;> rename_i hpe
    · simp at h
    · obtain ⟨rfl, -⟩ := by simpa using h
      exact hp _ (hx.raised hs) (by simpa using hpe)
  · simp at h

theorem ask (hR : Lenient R) {q : Except Fault α} (hq : Mild q) (hP : ∀ a, q = .ok a → P a) :
    (liftM q : Action ω σ α).Ensures c P R := by
  rcases q with f | a
  · exact .fault (hR f (hq f rfl))
  · exact .pure (hP a rfl)

variable [HostObject ω]

/-- The two ways on from an outcome. -/
theorem ifSucceeded (hR : Lenient R) {res : Outcome ω}
    (hx : res.succeeded = .ok true → x.Ensures c P R)
    (hy : res.succeeded = .ok false → y.Ensures c P R) :
    Ensures c P R (do if ← res.succeeded then x else y) := by
  refine .bind (.ask hR res.mild_succeeded fun b hb => hb) fun b hb => ?_
  cases b
  · exact hy hb
  · exact hx hb

end Ensures

end Action

-- The equations of `run` are made here, before the many proofs that rewrite with them.
attribute [local simp] Parser.run in
theorem Parser.run_pure [HostObject ω] {cb : Callbacks ω σ} (v : Value ω) :
    (Parser.pure v).run cb = (Pure.pure (.ok v) : Action ω σ (Outcome ω)) := by
  simp

end ParserAlgebra
