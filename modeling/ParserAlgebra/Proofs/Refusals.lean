import ParserAlgebra.Proofs.Backtracking
import ParserAlgebra.Proofs.Steps

/-!
# Where a refused value is reported

A function that is applied to the value of a success may refuse it (`Refuses`): it raises what it
declares, or it returns a failure. The refusal becomes the failure of the parser. It is reported after
what was matched if the function has given it no place. A place that came with the refusal is kept as
it is, though it may be one of another text (`Parser.refusals_reported`).
-/

namespace ParserAlgebra

variable {ω σ : Type} [HostObject ω] {cb : Callbacks ω σ} {c : Context ω}
  {s t u : State ω σ}

/-- The place that a failure was given, if it was given one. -/
def Value.place : Value ω → Option (Value ω)
  | none => Option.none
  | v => some v

/-- From the state `t` the function `f` refuses the value `v` with the error `e` and leaves the state
`u`; the refusal may come with a place. -/
inductive Refuses (cb : Callbacks ω σ) (c : Context ω) (f : ω) (err : Declared ω) (v : Value ω)
    (t : State ω σ) : Value ω → Option (Value ω) → State ω σ → Prop
  | raised {e u} (hf : cb.call f v c t = (.raised e, u)) (he : err.catches e.kindOf = true) :
      Refuses cb c f err v t e none u
  | returned {w e pos u} (hf : cb.call f v c t = (.returned w, u)) (hw : w.isA .err = true)
      (he : w.get .error = .ok e) (hpos : w.get .pos = .ok pos) :
      Refuses cb c f err v t e pos.place u

namespace Parser

open ParserAlgebra.Action

variable {p : Parser ω} {a : Outcome ω} {f : ω} {err : Declared ω} {v e : Value ω}
  {place : Option (Value ω)}

/-- A failure that was returned is reported at the cursor if it has no place. -/
theorem refined_of_failure {w pos : Value ω} {target : Declared ω} (hw : w.isA .err = true)
    (he : w.get .error = .ok e) (hpos : w.get .pos = .ok pos) :
    refined cb target w = (do
      let error ← Conversion.coerce cb e target
      let mark ← save
      return .err error (pos.place.getD mark.value) : Action ω σ (Outcome ω)) := by
  unfold refined
  simp only [hw, if_true, he, hpos, monadLift_ok, pure_bind]
  cases pos <;> rfl

/-- The error of a refusal is converted, and reported at the place that came with it or else where the
cursor is then. -/
theorem run_refine_of_refuses (h : p.run cb c s = (.returned a, t)) (ha : a.succeeded = .ok true)
    (hv : a.value = .ok v) (hf : Refuses cb c f err v t e place u) :
    (refine p f err).run cb c s = (do
      let error ← Conversion.coerce cb e (refine p f err).declares
      let mark ← save
      return .err error (place.getD mark.value) : Action ω σ (Outcome ω)) c u := by
  cases hf with
  | raised hf he => exact run_refine_of_raised h ha hv hf he
  | returned hf hw he hpos =>
    rw [run_refine_of_returned h ha hv hf, refined_of_failure hw he hpos]

/-- A refusal that is returned is reported after what was matched if and only if no other place came
with it. -/
theorem refusals_reported (h : p.run cb c s = (.returned a, t)) (ha : a.succeeded = .ok true)
    (hv : a.value = .ok v) (hf : Refuses cb c f err v t e place u) :
    ((refine p f err).run cb c s = (do
      let error ← Conversion.coerce cb e (refine p f err).declares
      let mark ← save
      return .err error (place.getD mark.value) : Action ω σ (Outcome ω)) c u) ∧
    (u.cursor.toMark = t.cursor.toMark → ConversionsStay cb c → ∀ b u',
      (refine p f err).run cb c s = (.returned b, u') →
      b.succeeded = .ok false ∧ u'.cursor.toMark = t.cursor.toMark ∧
        (b.pos = .ok t.cursor.value ↔ ∀ other ∈ place, other = t.cursor.value)) := by
  have hrun := run_refine_of_refuses h ha hv hf
  refine ⟨hrun, fun hu hc b u' hb => ?_⟩
  obtain ⟨error, u₁, hcoerce, hb⟩ := bind_returned.1 (hrun.symm.trans hb)
  obtain ⟨rfl, rfl⟩ : Outcome.err error (place.getD u₁.cursor.value) = b ∧ u₁ = u' := by
    simpa [bind_apply] using hb
  have hstay : u₁.cursor.toMark = t.cursor.toMark :=
    (Conversion.coerce_stays hc e _ u error u₁ hcoerce).trans hu
  refine ⟨rfl, hstay, ?_⟩
  rw [hstay]
  cases place <;> simp

/-- Whatever was matched is refused, by an exception and by a failure without a place. -/
theorem refusals_reported_word :
    let h : Host Assignment.Function Unit := { Assignment.host with
      call := fun _ f _ =>
        match f with
        | .number => Action.fault .tooManyDigits
        | .assignment => return .err (.exception .wordError [] .nil) .none }
    let c : Context Assignment.Function := ⟨Assignment.registry, {}, .warning⟩
    let cb := h.callbacks 1 1
    let s : State Assignment.Function Unit := ⟨.ofList ['a', 'b'], [], ()⟩
    let p : Parser Assignment.Function := .convert .word (.kind Assignment.failed)
    ∀ f, ∃ b u, (refine p f (.kind .valueError)).run cb c s = (.returned b, u) ∧
      b.pos = .ok (.int 2) := by
  intro h c cb s p f
  let v : Value Assignment.Function := .span ⟨['a', 'b'], 0, 2⟩
  let t : State Assignment.Function Unit := ⟨{ source := ['a', 'b'], pos := 2 }, [], ()⟩
  have hp : p.run cb c s = (.returned (.ok v), t) := rfl
  obtain ⟨e, hf⟩ : ∃ e, Refuses cb c f (.kind .valueError) v t e none t := by
    cases f with
    | number => exact ⟨_, .raised rfl rfl⟩
    | assignment =>
      let w : Value Assignment.Function := .err (.exception .wordError [] .nil) .none
      have hplace : w.get .pos = .ok .none := rfl
      exact ⟨_, .returned rfl rfl rfl hplace⟩
  obtain ⟨b, u, hb⟩ : ∃ b u, (refine p f (.kind .valueError)).run cb c s = (.returned b, u) := by
    cases f <;> exact ⟨_, _, rfl⟩
  obtain ⟨-, hreport⟩ := refusals_reported hp rfl rfl hf
  obtain ⟨-, -, hpos⟩ := hreport rfl Assignment.conversionsStay b u hb
  exact ⟨b, u, hb, hpos.2 fun _ hother => nomatch hother⟩

/-- A function that runs a parser on the matched text hands on where that parser failed, which is a
place of this other text. -/
theorem refusal_misplaced :
    let h : Host Assignment.Function Unit := { Assignment.host with
      call := fun run _ v => do
        let text := (Assignment.spanText v).toList
        return (← withInput (.ofList text) (run (.take "x"))).toValue }
    let c : Context Assignment.Function := ⟨.empty, {}, .warning⟩
    let cb := h.callbacks 1 1
    let s : State Assignment.Function Unit := ⟨.ofList ['a', 'b'], [], ()⟩
    let t : State Assignment.Function Unit := ⟨{ source := ['a', 'b'], pos := 2 }, [], ()⟩
    let p : Parser Assignment.Function := .refine (.take "ab") .number (.kind .takeError)
    let v : Value Assignment.Function := .span ⟨['a', 'b'], 0, 2⟩
    let e : Value Assignment.Function := .takeError "x" .noMatch
    mkRefine (.take "ab") .number (.kind .takeError) c s = (.returned p, s) ∧
      (take "ab").run cb c s = (.returned (.ok v), t) ∧
      Refuses cb c .number (.kind .takeError) v t e (some (.int 0)) t ∧
      t.cursor.value = .int 2 ∧ p.run cb c s = (.returned (.err e (.int 0)), t) := by
  intro h c cb s t p v e
  have hp : (take "ab").run cb c s = (.returned (.ok v), t) := rfl
  have htext : (Assignment.spanText v).toList = ['a', 'b'] := String.toList_ofList
  have hcall : cb.call .number v c t = (.returned (.err e (.int 0)), t) := by
    change (do return (← withInput (.ofList (Assignment.spanText v).toList)
      ((take "x").run (h.callbacks 1 0))).toValue : Action _ _ (Value _)) c t = _
    rw [htext]
    rfl
  have hplace : (Value.err e (.int 0)).get .pos = .ok (.int 0) := rfl
  have hf : Refuses cb c .number (.kind .takeError) v t e (some (.int 0)) t :=
    .returned hcall rfl rfl hplace
  refine ⟨rfl, hp, hf, rfl, ?_⟩
  rw [run_refine_of_refuses hp rfl rfl hf]
  rfl

end Parser

end ParserAlgebra
