import ParserAlgebra.Parser.Report
import ParserAlgebra.Proofs.Failing

/-!
# Successes that have a value

An outcome of a derived kind may count as a success and have no value to give. Such outcomes come from the
functions of the host program only: where these make none, no parser does (`Parser.valued_run`).
-/

namespace ParserAlgebra

variable {ω σ : Type} [HostObject ω] {c : Context ω} {cb : Callbacks ω σ}

/-- If it counts as a success, it has a value. -/
def Outcome.Valued (a : Outcome ω) : Prop := a.succeeded = .ok true → ∃ v, a.value = .ok v

namespace Outcome

theorem valued_ok (v : Value ω) : (ok v).Valued := fun _ => ⟨v, rfl⟩

theorem valued_err (e pos : Value ω) : (err e pos).Valued := fun h => by cases h

theorem valued_of_failed {a : Outcome ω} (h : a.succeeded = .ok false) : a.Valued :=
  fun h' => by cases h.symm.trans h'

end Outcome

/-- An object that is of the kind of an outcome has a value if it counts as a success. -/
def Value.Valued (v : Value ω) : Prop :=
  v.isA .ok = true ∨ v.isA .err = true → (Outcome.ofValue v).Valued

/-- The successes that the action returns have values. -/
abbrev Action.Valued (c : Context ω) (x : Action ω σ (Outcome ω)) : Prop :=
  x.Ensures c Outcome.Valued fun _ => True

/-- So have those that functions of the host program return in place of outcomes. -/
structure Callbacks.Valued (c : Context ω) (cb : Callbacks ω σ) : Prop where
  call : ∀ f v, (cb.call f v).Ensures c Value.Valued fun _ => True
  step : ∀ f, (cb.step f).Ensures c Value.Valued fun _ => True
  resume : ∀ p, (cb.resume p).Valued c

namespace Parser

open ParserAlgebra.Action

section Pieces

variable {p : Parser ω} {name : String}

theorem valued_normalise {v : Value ω} (hv : v.Valued) :
    (normalise name v : Action ω σ (Outcome ω)).Valued c := by
  unfold normalise
  split
  · next herr =>
    refine .bind (.any _) fun pos _ => ?_
    split
    · exact .bind (.any _) fun e _ => .bind .save fun m _ => .pure (Outcome.valued_err _ _)
    · exact .pure (hv (.inr herr))
  · split
    · next hok => exact .pure (hv (.inl hok))
    · exact .bind (.any _) fun said _ => .fault trivial

theorem valued_refined {target : Declared ω} {v : Value ω} (hv : v.Valued) :
    (refined cb target v).Valued c := by
  unfold refined
  split
  · refine .bind (.any _) fun e _ => .bind (.any _) fun e' _ => .bind (.any _) fun pos _ => ?_
    split
    · exact .bind .save fun m _ => .pure (Outcome.valued_err _ _)
    · exact .pure (Outcome.valued_err _ _)
  · split
    · next hok => exact .pure (hv (.inl hok))
    · exact .pure (Outcome.valued_ok v)

theorem valued_retarget {source target : Declared ω} (a : Outcome ω) :
    (retarget cb name source target a).Valued c := by
  refine ⟨fun h => ?_, fun _ => trivial⟩
  obtain ⟨_, _, pos, e, -, -, -, -, -, rfl⟩ := retarget_returned h
  exact Outcome.valued_err e pos

theorem valued_runSepBy1 {item sep : Action ω σ (Outcome ω)} (hi : item.Valued c) :
    (runSepBy1 cb name item sep).Valued c :=
  .bind hi fun _ ha => .ifSucceeded lenient_any
    (fun _ => .bind (.any _) fun _ _ => .bind (.any _) fun _ _ => .pure (Outcome.valued_ok _))
    fun _ => .pure ha

/-- What is done about a failure does not concern a success. -/
theorem valued_orElse {x : Action ω σ (Outcome ω)} {k : Outcome ω → Action ω σ (Outcome ω)}
    (hx : x.Valued c) (hk : ∀ a, a.succeeded = .ok false → (k a).Valued c) :
    Valued c (do let a ← x; if ← a.succeeded then return a else k a) :=
  .bind hx fun a ha => .ifSucceeded lenient_any (fun _ => .pure ha) (hk a)

end Pieces

/-- If the successes that the functions of the host program return have values, so have those of every
parser. -/
theorem valued_run (hcb : cb.Valued c) (p : Parser ω) : (p.run cb).Valued c := by
  induction p with
  | function name d step =>
    rw [run]
    exact .bind (hcb.step step) fun v hv => valued_normalise hv
  | nextChar =>
    rw [run]
    refine .bind .cursor fun d _ => ?_
    split
    · exact .pure (Outcome.valued_err _ _)
    · exact .bind (.setCursor _) fun _ _ => .pure (Outcome.valued_ok _)
  | word =>
    rw [run]
    refine .bind .cursor fun d _ => .bind (.any _) fun n _ => ?_
    split
    · exact .pure (Outcome.valued_err _ _)
    · exact .pure (Outcome.valued_ok _)
  | whitespace =>
    rw [run]
    exact .bind (.any _) fun n _ => .pure (Outcome.valued_ok _)
  | eof =>
    rw [run]
    refine .bind .cursor fun d _ => ?_
    split
    · exact .pure (Outcome.valued_ok _)
    · exact .bind (.any _) fun c' _ => .bind (.any _) fun found _ => .pure (Outcome.valued_err _ _)
  | take literal =>
    rw [run]
    refine .bind .cursor fun d _ => ?_
    dsimp only
    split
    · exact .bind (.setCursor _) fun _ _ => .pure (Outcome.valued_ok _)
    · exact .pure (Outcome.valued_err _ _)
  | pure v =>
    rw [run_pure]
    exact .pure (Outcome.valued_ok v)
  | fail e =>
    rw [run]
    exact .bind .save fun m _ => .pure (Outcome.valued_err _ _)
  | seq p q ihp ihq =>
    rw [run]
    refine .bind ihp fun a _ => .ifSucceeded lenient_any (fun _ => ?_) fun _ => valued_retarget a
    refine .bind ihq fun b _ => .ifSucceeded lenient_any (fun _ => ?_) fun _ => valued_retarget b
    exact .bind (.any _) fun v _ => .bind (.any _) fun w _ => .pure (Outcome.valued_ok _)
  | bind p next ih =>
    rw [run]
    refine .bind ih fun a _ => .ifSucceeded lenient_any (fun _ => ?_) fun _ => valued_retarget a
    refine .bind (.any _) fun v _ => .bind (.any _) fun w _ => .bind (.any _) fun q _ => ?_
    exact valued_orElse (hcb.resume q) fun b _ => valued_retarget b
  | map p f ih =>
    rw [run]
    exact .bind ih fun a ha => .ifSucceeded lenient_any (fun _ => .bind (.any _) fun v _ =>
      .bind (.any _) fun w _ => .pure (Outcome.valued_ok w)) fun _ => .pure ha
  | refine p f err ih =>
    rw [run]
    refine .bind ih fun a _ => .ifSucceeded lenient_any (fun _ => ?_) fun _ => valued_retarget a
    have hcall : Ensures c Value.Valued (fun _ => True)
        (do cb.call f (← a.value) : Action ω σ (Value ω)) := .bind (.any _) fun v _ => hcb.call f v
    refine .bind (hcall.catching fun _ _ _ => trivial) fun r hr => ?_
    rcases r with e | w
    · exact .bind (.any _) fun e' _ => .bind .save fun m _ => .pure (Outcome.valued_err _ _)
    · exact valued_refined hr
  | convert p target ih =>
    rw [run]
    exact valued_orElse ih fun a _ => valued_retarget a
  | mapErr p f err ih =>
    rw [run]
    exact valued_orElse ih fun a _ => .bind (.any _) fun e _ => .bind (.any _) fun e' _ =>
      .bind (.any _) fun pos _ => .pure (Outcome.valued_err e' pos)
  | alt p q ihp ihq =>
    rw [run]
    refine .bind .save fun m _ => valued_orElse ihp fun a _ => .bind (.rewindTo m) fun _ _ => ?_
    exact valued_orElse ihq fun b _ => .bind (.rewindTo m) fun _ _ => valued_retarget b
  | rewind p ih =>
    rw [run]
    exact .bind .save fun m _ => valued_orElse ih fun a ha => .bind (.rewindTo m) fun _ _ =>
      .pure (Outcome.valued_of_failed ha)
  | option default p ih =>
    rw [run]
    exact .bind .save fun m _ => valued_orElse ih fun a _ => .bind (.rewindTo m) fun _ _ =>
      .pure (Outcome.valued_ok default)
  | many p ih =>
    rw [run]
    exact .bind (.any _) fun vs _ => .pure (Outcome.valued_ok _)
  | sepBy1 p q ihp ihq =>
    rw [run]
    exact valued_runSepBy1 ihp
  | sepBy p q ihp ihq =>
    rw [run]
    exact .bind .save fun m _ => valued_orElse (valued_runSepBy1 ihp) fun a _ =>
      .bind (.rewindTo m) fun _ _ => .pure (Outcome.valued_ok _)
  | later d factory =>
    rw [run]
    exact .bind (.any _) fun q _ => hcb.resume q
  | trace label =>
    rw [run]
    exact .bind (.any _) fun _ _ => .pure (Outcome.valued_ok _)
  | traced label p ih =>
    rw [run]
    refine .bind (.any _) fun _ _ => .bind .save fun m _ => .bind ih fun a ha => ?_
    refine .ifSucceeded lenient_any (fun _ => ?_) fun hfail => ?_
    · exact .bind (.any _) fun v _ => .bind (.any _) fun _ _ => .pure ha
    · exact .bind (.rewindTo m) fun _ _ => .bind (.any _) fun _ _ => .bind (.any _) fun e _ =>
        .bind (.any _) fun _ _ => .pure (Outcome.valued_of_failed hfail)

end Parser

/-- What the functions of the host program return has a value where it counts as a success, if that is so of
the parsers that they run. -/
structure Host.Valued (c : Context ω) (h : Host ω σ) : Prop where
  call : ∀ {run : Runner ω σ}, (∀ p, (run p).Valued c) →
    ∀ f v, (h.call run f v).Ensures c Value.Valued fun _ => True
  step : ∀ {run : Runner ω σ}, (∀ p, (run p).Valued c) →
    ∀ f, (h.step run f).Ensures c Value.Valued fun _ => True

variable {h : Host ω σ} {rounds : Nat}

theorem Host.Valued.callbacks (hh : h.Valued c) : ∀ depth, (h.callbacks rounds depth).Valued c
  | 0 => ⟨hh.call fun _ => .exhausted, hh.step fun _ => .exhausted, fun _ => .exhausted⟩
  | depth + 1 =>
    have hrun (p : Parser ω) : (p.run (h.callbacks rounds depth)).Valued c :=
      p.valued_run (hh.callbacks depth)
    ⟨hh.call hrun, hh.step hrun, hrun⟩

end ParserAlgebra
