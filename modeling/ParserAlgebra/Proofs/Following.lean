import ParserAlgebra.Proofs.InStep
import ParserAlgebra.Proofs.Keeping

/-!
# Runs that follow others

One action follows another (`Action.Follows`) if from states alike it ends as the other one does, unless it
raises one of some exceptions: both return, and what they return is related, or both raise exceptions of
one kind, or both run out of steps. The log is not looked at, so an action may write to it on the way
(`Follows.skip`). What is said of the cursor is kept, as in `Action.Keeps`.
-/

namespace ParserAlgebra

variable {ω σ α α' β β' : Type} [HostObject ω] {c : Context ω} {K : Cursor ω → Prop}
  {E : Value ω → Prop}

/-- The answers are of one form. What is returned is related by `P`, what is raised is of one kind. -/
inductive Answer.Accords (P : α → β → Prop) : Answer ω α → Answer ω β → Prop
  | returned {a : α} {b : β} (h : P a b) : Accords P (.returned a) (.returned b)
  | raised {e e' : Value ω} (h : e.kindOf = e'.kindOf) : Accords P (.raised e) (.raised e')
  | exhausted : Accords P .exhausted .exhausted

theorem Answer.Relates.accords {P : α → β → Prop} {x : Answer ω α} {y : Answer ω β}
    (h : x.Relates P y) : x.Accords P y := by
  cases h with
  | returned h => exact .returned h
  | raised e => exact .raised rfl
  | exhausted => exact .exhausted

namespace Action

/-- From states alike, where `K` is true of the cursor, the first action raises one of the exceptions `E`,
or both end alike and `K` stays true. -/
def Follows (c : Context ω) (K : Cursor ω → Prop) (E : Value ω → Prop) (P : α → β → Prop)
    (x : Action ω σ α) (y : Action ω σ β) : Prop :=
  ∀ s t, s.Alike id t → K s.cursor →
    (∃ e u, x c s = (.raised e, u) ∧ E e) ∨
      (x c s).1.Accords P (y c t).1 ∧ (x c s).2.Alike id (y c t).2 ∧ K (x c s).2.cursor

/-- The action returns, and changes nothing but the log. -/
def Quiet (c : Context ω) (x : Action ω σ Unit) : Prop :=
  ∀ s, ∃ t, t.Alike id s ∧ x c s = (.returned (), t)

omit [HostObject ω] in
theorem Relates.catching {x y : Action ω σ α} {p : Value ω → Bool} (h : Relates c id Eq x y) :
    Relates c id Eq (catching p x) (catching p y) := by
  intro s t hst
  obtain ⟨ha, hu⟩ := h s t hst
  unfold Action.catching
  generalize x c s = xs, y c t = yt at ha hu ⊢
  obtain ⟨_, u⟩ := xs
  obtain ⟨_, v⟩ := yt
  cases ha with
  | returned h => exact ⟨.returned (congrArg Except.ok h), hu⟩
  | raised e =>
    refine ⟨?_, hu⟩
    dsimp only
    split
    · exact .returned rfl
    · exact .raised e
  | exhausted => exact ⟨.exhausted, hu⟩

namespace Follows

variable {P : α → β → Prop} {Q : α' → β' → Prop} {x : Action ω σ α} {y : Action ω σ β}

/-- What is done alike on both sides raises nothing of its own. -/
theorem of_relates (h : Relates c id P x y) (hk : x.Keeps K c) : Follows c K E P x y :=
  fun s t hst hs => .inr ⟨(h s t hst).1.accords, (h s t hst).2, hk s hs⟩

protected theorem pure {a : α} {b : β} (h : P a b) :
    Follows (σ := σ) c K E P (Pure.pure a) (Pure.pure b) := of_relates (.pure h) (.pure a)

protected theorem fault {f g : Fault}
    (h : (f.exception : Value ω).kindOf = (g.exception : Value ω).kindOf) :
    Follows (σ := σ) c K E P (fault f) (fault g) :=
  fun _ _ hst hs => .inr ⟨.raised h, hst, hs⟩

protected theorem exhausted : Follows (σ := σ) c K E P exhausted exhausted :=
  of_relates .exhausted .exhausted

/-- What is related was returned from a place where `K` is true. -/
theorem returning (h : Follows c K E P x y) :
    Follows c K E (fun a b => P a b ∧ ∃ s t, K s.cursor ∧ x c s = (.returned a, t)) x y := by
  intro s t hst hs
  rcases h s t hst hs with hE | ⟨ha, hu⟩
  · exact .inl hE
  · refine .inr ⟨?_, hu⟩
    rcases hx : x c s with ⟨a, u⟩
    rw [hx] at ha
    generalize y c t = yt at ha ⊢
    obtain ⟨b, v⟩ := yt
    cases ha with
    | returned h => exact .returned ⟨h, s, u, hs, hx⟩
    | raised he => exact .raised he
    | exhausted => exact .exhausted

protected theorem bind {f : α → Action ω σ α'} {g : β → Action ω σ β'} (hx : Follows c K E P x y)
    (hf : ∀ a b, P a b → Follows c K E Q (f a) (g b)) : Follows c K E Q (x >>= f) (y >>= g) := by
  intro s t hst hs
  rw [bind_apply, bind_apply]
  rcases hx s t hst hs with ⟨e, u, hr, he⟩ | ⟨ha, hu, hk⟩
  · rw [hr]
    exact .inl ⟨e, u, rfl, he⟩
  · generalize x c s = xs, y c t = yt at ha hu hk
    obtain ⟨_, u⟩ := xs
    obtain ⟨_, v⟩ := yt
    cases ha with
    | returned h => exact hf _ _ h u v hu hk
    | raised he => exact .inr ⟨.raised he, hu, hk⟩
    | exhausted => exact .inr ⟨.exhausted, hu, hk⟩

theorem bind_eq {x y : Action ω σ α} {f : α → Action ω σ α'} {g : α → Action ω σ β'}
    (hx : Follows c K E Eq x y) (hf : ∀ a, Follows c K E Q (f a) (g a)) :
    Follows c K E Q (x >>= f) (y >>= g) := hx.bind fun a _ h => h ▸ hf a

/-- The same on both sides, and then actions of which one follows the other. -/
theorem after {x : Action ω σ α} {f : α → Action ω σ α'} {g : α → Action ω σ β'} (hx : Blind c id x)
    (hk : x.Keeps K c) (hf : ∀ a, Follows c K E Q (f a) (g a)) :
    Follows c K E Q (x >>= f) (x >>= g) := (of_relates hx hk).bind_eq hf

theorem ask {q : Except Fault α} {f : α → Action ω σ α'} {g : α → Action ω σ β'}
    (hf : ∀ a, q = .ok a → Follows c K E Q (f a) (g a)) :
    Follows c K E Q (liftM q >>= f) (liftM q >>= g) := by
  rcases q with e | a
  · exact .bind (.fault rfl) fun _ _ => False.elim
  · exact hf a rfl

theorem cursor_bind {f : Cursor ω → Action ω σ α} {g : Cursor ω → Action ω σ β}
    (hf : ∀ d, K d → Follows c K E P (f d) (g d)) :
    Follows c K E P (cursor >>= f) (cursor >>= g) := by
  intro s t hst hs
  rw [bind_apply, bind_apply, cursor_apply, cursor_apply, ← hst.cursor]
  exact hf s.cursor hs s t hst hs

theorem save_bind {f : Mark ω → Action ω σ α} {g : Mark ω → Action ω σ β}
    (hf : ∀ d : Cursor ω, K d → Follows c K E P (f d.toMark) (g d.toMark)) :
    Follows c K E P (save >>= f) (save >>= g) := by
  intro s t hst hs
  rw [bind_apply, bind_apply, save_apply, save_apply, ← hst.cursor]
  exact hf s.cursor hs s t hst hs

theorem setCursor {d : Cursor ω} (hd : K d) :
    Follows (σ := σ) c K E Eq (setCursor d) (setCursor d) := of_relates .setCursor (.setCursor hd)

theorem rewindTo {d : Cursor ω} (hK : Cursor.Closed K) (hd : K d) :
    Follows (σ := σ) c K E Eq (rewindTo d.toMark) (rewindTo d.toMark) :=
  of_relates .rewindTo (.rewindTo hK hd)

theorem ifSucceeded {res : Outcome ω} {x' : Action ω σ α} {y' : Action ω σ β}
    (h : res.succeeded = .ok true → Follows c K E P x y)
    (h' : res.succeeded = .ok false → Follows c K E P x' y') :
    Follows c K E P (do if ← res.succeeded then x else x') (do if ← res.succeeded then y else y') := by
  refine ask fun b hb => ?_
  cases b
  · exact h' hb
  · exact h hb

/-- Where nothing else is raised, what the other action returns is returned. -/
theorem returned_of_never {x y : Action ω σ α} (h : Follows c K (fun _ => False) Eq x y)
    {s t u : State ω σ} {a : α} (hst : s.Alike id t) (hs : K s.cursor) (hy : y c t = (.returned a, u)) :
    ∃ v, x c s = (.returned a, v) ∧ v.Alike id u := by
  rcases h s t hst hs with ⟨_, _, _, hE⟩ | ⟨ha, hu, -⟩
  · exact hE.elim
  · rw [hy] at ha hu
    generalize x c s = xs at ha hu ⊢
    obtain ⟨_, v⟩ := xs
    cases ha with
    | returned h => exact ⟨v, h ▸ rfl, hu⟩

/-- An action that only writes to the log may stand on one side. -/
theorem skip {w : Action ω σ Unit} {f : Unit → Action ω σ α} (hw : w.Quiet c)
    (hf : Follows c K E P (f ()) y) : Follows c K E P (w >>= f) y := by
  intro s t hst hs
  obtain ⟨u, hu, hr⟩ := hw s
  rw [bind_apply, hr]
  exact hf u t (hu.trans hst) (hu.cursor ▸ hs)

end Follows

end Action

end ParserAlgebra
