import ParserAlgebra.Parser.Report
import ParserAlgebra.Proofs.Repetition

/-!
# Runs that finish

A run may be given any number of rounds for each repetition, and any depth for the parsers that are made
on the way. If it does not run out of them, it ends in the same way when it is given more
(`Parser.run_finished`). The functions of the host program only hand on what the parsers that they run
come to, so they do the same (`Host.Monotone`).
-/

namespace ParserAlgebra

variable {ω σ α β : Type} {c : Context ω}

namespace Action

/-- What the first action finishes, the second one finishes in the same way. -/
def Within (c : Context ω) (x y : Action ω σ α) : Prop :=
  ∀ s, (x c s).1 = .exhausted ∨ x c s = y c s

namespace Within

variable {x y : Action ω σ α}

theorem refl (x : Action ω σ α) : x.Within c x := fun _ => .inr rfl

theorem exhausted : (exhausted : Action ω σ α).Within c y := fun _ => .inl rfl

/-- What goes on from the first action is asked only of what that one returns. -/
theorem bind_of_ensures {P : α → Prop} {R : Value ω → Prop} {f g : α → Action ω σ β}
    (hx : x.Within c y) (hP : x.Ensures c P R) (hf : ∀ a, P a → (f a).Within c (g a)) :
    (x >>= f).Within c (y >>= g) := by
  intro s
  rw [bind_apply, bind_apply]
  rcases hx s with h | h
  · generalize x c s = r at h
    obtain ⟨_ | _ | _, u⟩ := r
    · cases h
    · cases h
    · exact .inl rfl
  · rw [← h]
    rcases hr : x c s with ⟨a | e | _, u⟩
    · exact hf a (hP.returned hr) u
    · exact .inr rfl
    · exact .inl rfl

protected theorem bind {f g : α → Action ω σ β} (hx : x.Within c y)
    (hf : ∀ a, (f a).Within c (g a)) : (x >>= f).Within c (y >>= g) :=
  hx.bind_of_ensures (.any x) fun a _ => hf a

theorem after {f g : α → Action ω σ β} (hf : ∀ a, (f a).Within c (g a)) :
    (x >>= f).Within c (x >>= g) := (refl x).bind hf

theorem catching {p : Value ω → Bool} (hx : x.Within c y) :
    (catching p x).Within c (catching p y) := by
  intro s
  rcases hx s with h | h
  · left
    simp only [Action.catching]
    generalize x c s = r at h
    obtain ⟨_ | _ | _, u⟩ := r
    · cases h
    · cases h
    · rfl
  · right
    simp only [Action.catching, h]

theorem ifSucceeded [HostObject ω] {res : Outcome ω} {x' y' : Action ω σ α} (hx : x.Within c y)
    (hx' : x'.Within c y') :
    Within c (do if ← res.succeeded then x else x') (do if ← res.succeeded then y else y') := by
  refine after fun b => ?_
  cases b
  · exact hx'
  · exact hx

theorem finished (h : x.Within c y) {s : State ω σ}
    (hx : (x c s).1 ≠ .exhausted) : y c s = x c s :=
  ((h s).resolve_left hx).symm

end Within

end Action

variable [HostObject ω] {cb cb' : Callbacks ω σ}

/-- The same host program, with more rounds and more depth. -/
structure Callbacks.Within (c : Context ω) (cb cb' : Callbacks ω σ) : Prop where
  call : ∀ f v, (cb.call f v).Within c (cb'.call f v)
  step : ∀ f, (cb.step f).Within c (cb'.step f)
  force : ∀ f, (cb.force f).Within c (cb'.force f)
  operand : cb.operand = cb'.operand
  resume : ∀ p, (cb.resume p).Within c (cb'.resume p)
  rounds : cb.rounds ≤ cb'.rounds

open ParserAlgebra.Action

theorem Callbacks.Within.coerce (hcb : cb.Within c cb') (e : Value ω) (d : Declared ω) :
    (Conversion.coerce cb e d).Within c (Conversion.coerce cb' e d) := by
  have happly (conv : Conversion ω) :
      (Conversion.apply cb d e conv).Within c (Conversion.apply cb' d e conv) := by
    rcases conv with _ | f
    · exact .refl _
    · exact hcb.call f e
  unfold Conversion.coerce
  split
  · exact .refl _
  · split
    · exact .refl _
    · refine .after fun _ => ?_
      split
      · exact happly _
      · exact .refl _
    · refine .after fun _ => .after fun conv? => ?_
      split
      · exact happly _
      · exact .refl _
    · exact .refl _

namespace Parser

section Pieces

variable (hcb : cb.Within c cb')

include hcb

theorem within_retarget (name : String) (source target : Declared ω) (res : Outcome ω) :
    (retarget cb name source target res).Within c (retarget cb' name source target res) := by
  refine .after fun k => ?_
  split
  · exact .refl _
  · exact .after fun e => .bind (hcb.coerce e target) fun _ => .refl _

theorem within_refined (target : Declared ω) (w : Value ω) :
    (refined cb target w).Within c (refined cb' target w) := by
  unfold refined
  split
  · exact .after fun e => .bind (hcb.coerce e target) fun _ => .refl _
  · exact .refl _

omit [HostObject ω] in
theorem within_apply (f : Mapping ω) (v : Value ω) : (f.apply cb v).Within c (f.apply cb' v) := by
  unfold Mapping.apply
  split
  · exact .refl _
  · exact .refl _
  · exact .refl _
  · exact .refl _
  · exact hcb.call _ v
  · exact .refl _

end Pieces

theorem within_looped {ch : Level.Channel} {message : String} {x y : Action ω σ (Outcome ω)}
    (hxy : x.Within c y) :
    ∀ {n m : Nat} {done : List (Value ω)}, n ≤ m →
      (looped ch message x n done).Within c (looped ch message y m done)
  | 0, _, _, _ => .exhausted
  | n + 1, m + 1, done, h => by
    rw [looped, looped]
    refine .after fun mark => .bind hxy fun res => .ifSucceeded ?_ (.refl _)
    exact .after fun _ => .after fun v => within_looped hxy (Nat.le_of_succ_le_succ h)

theorem within_runSepBy1 (hcb : cb.Within c cb') {item item' sep sep' : Action ω σ (Outcome ω)}
    (hi : item.Within c item') (hs : sep.Within c sep') (name : String) :
    (runSepBy1 cb name item sep).Within c (runSepBy1 cb' name item' sep') := by
  refine .bind hi fun res => .ifSucceeded (.after fun v => ?_) (.refl _)
  rw [separated_eq_looped, separated_eq_looped]
  have hround : (pairing item sep).Within c (pairing item' sep') :=
    .bind hs fun res => .ifSucceeded hi (.refl _)
  exact .bind (within_looped hround hcb.rounds) fun _ => .refl _

theorem within_run (hcb : cb.Within c cb') (p : Parser ω) : (p.run cb).Within c (p.run cb') := by
  induction p with
  | function name d step => exact .bind (hcb.step step) fun _ => .refl _
  | nextChar | word | whitespace | eof | take | pure | fail | trace => exact .refl _
  | seq p q ihp ihq =>
    refine .bind ihp fun a => .ifSucceeded ?_ (within_retarget hcb _ _ _ a)
    exact .bind ihq fun b => .ifSucceeded (.refl _) (within_retarget hcb _ _ _ b)
  | bind p next ih =>
    refine .bind ih fun a => .ifSucceeded ?_ (within_retarget hcb _ _ _ a)
    refine .after fun v => .bind (hcb.call next v) fun w => ?_
    rw [hcb.operand]
    refine .after fun q => .bind (hcb.resume q) fun out => ?_
    exact .ifSucceeded (.refl _) (within_retarget hcb _ _ _ out)
  | map p f ih =>
    exact .bind ih fun a => .ifSucceeded (.after fun v => .bind (within_apply hcb f v) fun _ =>
      .refl _) (.refl _)
  | refine p f err ih =>
    refine .bind ih fun a => .ifSucceeded ?_ (within_retarget hcb _ _ _ a)
    refine .bind (.catching (.after fun v => hcb.call f v)) fun r => ?_
    rcases r with e | w
    · exact .bind (hcb.coerce e _) fun _ => .refl _
    · exact within_refined hcb _ w
  | convert p target ih =>
    exact .bind ih fun a => .ifSucceeded (.refl _) (within_retarget hcb _ _ _ a)
  | mapErr p f err ih =>
    exact .bind ih fun a => .ifSucceeded (.refl _) (.after fun e => .bind (hcb.call f e) fun _ =>
      .refl _)
  | alt p q ihp ihq =>
    refine .after fun m => .bind ihp fun a => .ifSucceeded (.refl _) (.after fun _ => ?_)
    exact .bind ihq fun b => .ifSucceeded (.refl _) (.after fun _ => within_retarget hcb _ _ _ b)
  | rewind p ih => exact .after fun m => .bind ih fun a => .refl _
  | option default p ih => exact .after fun m => .bind ih fun a => .refl _
  | many p ih =>
    rw [run, run, repeated_eq_looped, repeated_eq_looped]
    exact .bind (within_looped ih hcb.rounds) fun _ => .refl _
  | sepBy1 p q ihp ihq => exact within_runSepBy1 hcb ihp ihq _
  | sepBy p q ihp ihq =>
    exact .after fun m => .bind (within_runSepBy1 hcb ihp ihq _) fun a => .refl _
  | later d factory => exact .bind (hcb.force factory) hcb.resume
  | traced label p ih =>
    exact .after fun _ => .after fun m => .bind ih fun a => .refl _

end Parser

/-- The functions of the host program finish what they do in the same way, when the parsers that they
run finish more. -/
structure Host.Monotone (c : Context ω) (h : Host ω σ) : Prop where
  call : ∀ {run run' : Runner ω σ}, (∀ p, (run p).Within c (run' p)) →
    ∀ f v, (h.call run f v).Within c (h.call run' f v)
  step : ∀ {run run' : Runner ω σ}, (∀ p, (run p).Within c (run' p)) →
    ∀ f, (h.step run f).Within c (h.step run' f)
  force : ∀ {run run' : Runner ω σ}, (∀ p, (run p).Within c (run' p)) →
    ∀ f, (h.force run f).Within c (h.force run' f)

variable {h : Host ω σ}

omit [HostObject ω] in
theorem Host.Monotone.tied (hh : h.Monotone c) {run run' : Runner ω σ}
    (hrun : ∀ p, (run p).Within c (run' p)) {rounds rounds' : Nat} (hr : rounds ≤ rounds') :
    (h.tied run rounds).Within c (h.tied run' rounds') :=
  ⟨hh.call hrun, hh.step hrun, hh.force hrun, rfl, hrun, hr⟩

theorem Host.Monotone.callbacks (hh : h.Monotone c) {rounds rounds' : Nat} (hr : rounds ≤ rounds') :
    ∀ {depth depth' : Nat}, depth ≤ depth' →
      (h.callbacks rounds depth).Within c (h.callbacks rounds' depth')
  | 0, 0, _ => hh.tied (fun _ => .exhausted) hr
  | 0, _ + 1, _ => hh.tied (fun _ => .exhausted) hr
  | _ + 1, _ + 1, hd =>
    hh.tied (fun p => p.within_run (hh.callbacks hr (Nat.le_of_succ_le_succ hd))) hr

/-- A run that finishes comes to the same with more rounds and more depth. -/
theorem Parser.run_finished (hh : h.Monotone c) {p : Parser ω} {s : State ω σ}
    {rounds rounds' depth depth' : Nat} (hr : rounds ≤ rounds') (hd : depth ≤ depth')
    (hp : (p.run (h.callbacks rounds depth) c s).1 ≠ .exhausted) :
    p.run (h.callbacks rounds' depth') c s = p.run (h.callbacks rounds depth) c s :=
  (p.within_run (hh.callbacks hr hd)).finished hp

end ParserAlgebra
