import ParserAlgebra.Proofs.Repetition

/-!
# Two runs side by side

Two actions are related (`Action.Relates`) if from states alike they end alike: both return, and what
they return is related, or both raise the same exception, or both run out of steps; and the states
they leave are alike again. States are alike that have one cursor and look the same to the host
program; the log is not looked at. The rules follow the monad, and there is one for each combinator,
where the outcomes of the parts are twins (`Outcome.Twins`): one success, or two failures that are
related.
-/

namespace ParserAlgebra

variable {ω σ τ α α' β β' : Type} {c : Context ω} {view : σ → τ}

/-- The states have one cursor, and the host program's own is the same as far as `view` shows it. -/
structure State.Alike (view : σ → τ) (s t : State ω σ) : Prop where
  cursor : s.cursor = t.cursor
  own : view s.own = view t.own

namespace State.Alike

variable {s t u : State ω σ}

theorem refl (s : State ω σ) : s.Alike view s := ⟨rfl, rfl⟩

theorem symm (h : s.Alike view t) : t.Alike view s := ⟨h.cursor.symm, h.own.symm⟩

theorem trans (h : s.Alike view t) (h' : t.Alike view u) : s.Alike view u :=
  ⟨h.cursor.trans h'.cursor, h.own.trans h'.own⟩

theorem backTo (h : s.Alike view t) (m : Mark ω) : (s.backTo m).Alike view (t.backTo m) :=
  ⟨congrArg (·.backTo m) h.cursor, h.own⟩

end State.Alike

/-- The answers are of one form. What is returned is related by `P`, what is raised is the same. -/
inductive Answer.Relates (P : α → β → Prop) : Answer ω α → Answer ω β → Prop
  | returned {a : α} {b : β} (h : P a b) : Relates P (.returned a) (.returned b)
  | raised (e : Value ω) : Relates P (.raised e) (.raised e)
  | exhausted : Relates P .exhausted .exhausted

theorem Answer.Relates.mono {P Q : α → β → Prop} {x : Answer ω α} {y : Answer ω β}
    (h : x.Relates P y) (hPQ : ∀ a b, P a b → Q a b) : x.Relates Q y := by
  cases h with
  | returned h => exact .returned (hPQ _ _ h)
  | raised e => exact .raised e
  | exhausted => exact .exhausted

namespace Action

/-- From states alike the actions answer alike, and leave states alike. -/
def Relates (c : Context ω) (view : σ → τ) (P : α → β → Prop) (x : Action ω σ α)
    (y : Action ω σ β) : Prop :=
  ∀ s t, s.Alike view t → (x c s).1.Relates P (y c t).1 ∧ (x c s).2.Alike view (y c t).2

/-- Writing to the log changes nothing that is looked at. -/
theorem log_returned (l : Level) (ch : Level.Channel) (message : String) (s : State ω σ) :
    ∃ t, t.Alike view s ∧ (log l ch message : Action ω σ Unit) c s = (.returned (), t) := by
  refine ⟨_, ?_, rfl⟩
  split <;> exact ⟨rfl, rfl⟩

theorem note_returned (l : Level) (ch : Level.Channel) (message : Except Fault String)
    (s : State ω σ) :
    ∃ t, t.Alike view s ∧ (note l ch message : Action ω σ Unit) c s = (.returned (), t) := by
  rcases message with f | message
  · exact ⟨s, .refl s, by rw [note_error]; rfl⟩
  · rw [note_ok]
    exact log_returned l ch message s

/-- The action reads neither the log nor what `view` does not show. -/
abbrev Blind (c : Context ω) (view : σ → τ) (x : Action ω σ α) : Prop := Relates c view Eq x x

namespace Relates

variable {P : α → β → Prop} {Q : α' → β' → Prop} {x : Action ω σ α} {y : Action ω σ β}

theorem mono {P' : α → β → Prop} (h : Relates c view P x y) (hP : ∀ a b, P a b → P' a b) :
    Relates c view P' x y := fun s t hst => ⟨(h s t hst).1.mono hP, (h s t hst).2⟩

/-- What is related was returned. -/
theorem returning (h : Relates c view P x y) :
    Relates c view (fun a b => P a b ∧ ∃ s t, x c s = (.returned a, t)) x y := by
  intro s t hst
  obtain ⟨ha, hu⟩ := h s t hst
  refine ⟨?_, hu⟩
  rcases hx : x c s with ⟨a, u⟩
  rw [hx] at ha
  generalize y c t = yt at ha ⊢
  obtain ⟨b, v⟩ := yt
  cases ha with
  | returned h => exact .returned ⟨h, s, u, hx⟩
  | raised e => exact .raised e
  | exhausted => exact .exhausted

protected theorem pure {a : α} {b : β} (h : P a b) :
    Relates c view P (Pure.pure a) (Pure.pure b) := fun _ _ hst => ⟨.returned h, hst⟩

protected theorem bind {f : α → Action ω σ α'} {g : β → Action ω σ β'}
    (hx : Relates c view P x y) (hf : ∀ a b, P a b → Relates c view Q (f a) (g b)) :
    Relates c view Q (x >>= f) (y >>= g) := by
  intro s t hst
  obtain ⟨ha, hu⟩ := hx s t hst
  rw [bind_apply, bind_apply]
  generalize x c s = xs at ha hu
  generalize y c t = yt at ha hu
  obtain ⟨_, u⟩ := xs
  obtain ⟨_, v⟩ := yt
  cases ha with
  | returned h => exact hf _ _ h u v hu
  | raised e => exact ⟨.raised e, hu⟩
  | exhausted => exact ⟨.exhausted, hu⟩

theorem after {x : Action ω σ α} {f : α → Action ω σ α'} {g : α → Action ω σ β'}
    (hx : Blind c view x) (hf : ∀ a, Relates c view Q (f a) (g a)) :
    Relates c view Q (x >>= f) (x >>= g) :=
  hx.bind fun a _ h => h ▸ hf a

protected theorem fault (f : Fault) : Relates c view P (fault f) (fault f) :=
  fun _ _ hst => ⟨.raised _, hst⟩

protected theorem exhausted : Relates c view P exhausted exhausted := fun _ _ hst => ⟨.exhausted, hst⟩

theorem ask {q : Except Fault α} : Blind c view (liftM q : Action ω σ α) := by
  rcases q with f | a
  · exact .fault f
  · exact .pure rfl

theorem save : Blind c view (save : Action ω σ (Mark ω)) := by
  intro s t hst
  refine ⟨.returned ?_, hst⟩
  rw [hst.cursor]

theorem cursor : Blind c view (cursor : Action ω σ (Cursor ω)) :=
  fun _ _ hst => ⟨.returned hst.cursor, hst⟩

theorem context : Blind c view (context : Action ω σ (Context ω)) := fun _ _ hst =>
  ⟨.returned rfl, hst⟩

theorem setCursor {d : Cursor ω} : Blind c view (setCursor d : Action ω σ Unit) :=
  fun _ _ hst => ⟨.returned rfl, rfl, hst.own⟩

theorem rewindTo {m : Mark ω} : Blind c view (rewindTo m : Action ω σ Unit) :=
  fun _ _ hst => ⟨.returned rfl, hst.backTo m⟩

theorem writes {l : Level} : Blind c view (writes l : Action ω σ Bool) :=
  fun _ _ hst => ⟨.returned rfl, hst⟩

/-- The messages need not be the same. -/
theorem log {l : Level} {ch : Level.Channel} {m m' : String} :
    Relates c view Eq (log l ch m : Action ω σ Unit) (Action.log l ch m') := by
  intro s t hst
  refine ⟨.returned rfl, ?_⟩
  simp only [Action.log]
  split
  · exact ⟨hst.cursor, hst.own⟩
  · exact hst

/-- Nor need both be written. -/
theorem note {l : Level} {ch : Level.Channel} {m m' : Except Fault String} :
    Relates c view Eq (note l ch m : Action ω σ Unit) (Action.note l ch m') := by
  intro s t hst
  obtain ⟨u, hu, hx⟩ : ∃ u, State.Alike view u s ∧ _ := note_returned l ch m s
  obtain ⟨v, hv, hy⟩ : ∃ v, State.Alike view v t ∧ _ := note_returned l ch m' t
  rw [hx, hy]
  exact ⟨.returned rfl, hu.trans (hst.trans hv.symm)⟩

end Relates

end Action

/-- One success, or two failures that `F` relates. -/
inductive Outcome.Twins [HostObject ω] (F : Outcome ω → Outcome ω → Prop) :
    Outcome ω → Outcome ω → Prop
  | success {a : Outcome ω} (ha : a.succeeded = .ok true) : Twins F a a
  | failure {a b : Outcome ω} (ha : a.succeeded = .ok false) (hb : b.succeeded = .ok false)
      (h : F a b) : Twins F a b

namespace Parser

open ParserAlgebra.Action

variable [HostObject ω] {cb : Callbacks ω σ} {F G H : Outcome ω → Outcome ω → Prop}
  {p q p' q' : Parser ω} {a b : Outcome ω}

theorem relates_ifSucceeded {P : α → β → Prop} {x x' : Action ω σ α} {y y' : Action ω σ β}
    (h : a.Twins F b)
    (hx : a = b → a.succeeded = .ok true → Relates c view P x y)
    (hx' : a.succeeded = .ok false → b.succeeded = .ok false → F a b → Relates c view P x' y') :
    Relates c view P (do if ← a.succeeded then x else x') (do if ← b.succeeded then y else y') := by
  cases h with
  | success ha =>
    simp only [ha, monadLift_ok, pure_bind, if_true]
    exact hx rfl ha
  | failure ha hb h =>
    simp only [ha, hb, monadLift_ok, pure_bind, Bool.false_eq_true, if_false]
    exact hx' ha hb h

/-! ## What is written to the log -/

theorem relates_checkProgress {ch : Level.Channel} {message message' : String} {m : Mark ω} :
    Relates (σ := σ) c view Eq (checkProgress ch message m) (checkProgress ch message' m) := by
  unfold checkProgress
  refine .after .save fun n => .after .ask fun still => ?_
  split
  · refine .after .context fun d => .after .ask fun on => ?_
    split
    · exact .bind (.log) fun _ _ _ => .after .ask fun said => .fault _
    · exact .pure rfl
  · exact .pure rfl

theorem blind_runTrace (label : String) : Blind (σ := σ) c view (runTrace label) := by
  unfold runTrace
  refine .after .writes fun loud => ?_
  split
  · exact .after .cursor fun d => .after .context fun _ => .after .ask fun piece => .log
  · exact .pure rfl

theorem relates_logShown (ch : Level.Channel) (said : String) (v w : Value ω) :
    Relates (σ := σ) c view Eq (logShown ch said v) (logShown ch said w) := .note

/-! ## The combinators -/

theorem relates_seq (hp : Relates c view (Outcome.Twins F) (p.run cb) (p'.run cb))
    (hq : Relates c view (Outcome.Twins G) (q.run cb) (q'.run cb))
    (hF : ∀ a b, F a b → Relates c view (Outcome.Twins H)
      (retarget cb p.name p.declares (seq p q).declares a)
      (retarget cb p'.name p'.declares (seq p' q').declares b))
    (hG : ∀ a b, G a b → Relates c view (Outcome.Twins H)
      (retarget cb q.name q.declares (seq p q).declares a)
      (retarget cb q'.name q'.declares (seq p' q').declares b)) :
    Relates c view (Outcome.Twins H) ((seq p q).run cb) ((seq p' q').run cb) := by
  rw [run, run]
  refine .bind hp fun a b hab => relates_ifSucceeded hab ?_ fun _ _ h => hF a b h
  rintro rfl -
  refine .bind hq fun a' b' hab' => relates_ifSucceeded hab' ?_ fun _ _ h => hG a' b' h
  rintro rfl -
  exact .after .ask fun v => .after .ask fun w => .pure (.success rfl)

theorem relates_alt (hp : Relates c view (Outcome.Twins F) (p.run cb) (p'.run cb))
    (hq : Relates c view (Outcome.Twins G) (q.run cb) (q'.run cb))
    (hG : ∀ a b, G a b → Relates c view (Outcome.Twins H)
      (retarget cb q.name q.declares (alt p q).declares a)
      (retarget cb q'.name q'.declares (alt p' q').declares b)) :
    Relates c view (Outcome.Twins H) ((alt p q).run cb) ((alt p' q').run cb) := by
  rw [run, run]
  refine .after .save fun m => .bind hp fun a b hab => relates_ifSucceeded hab ?_ fun _ _ _ => ?_
  · rintro rfl ha
    exact .pure (.success ha)
  · refine .after .rewindTo fun _ => .bind hq fun a' b' hab' => relates_ifSucceeded hab' ?_ ?_
    · rintro rfl ha
      exact .pure (.success ha)
    · exact fun _ _ h => .after .rewindTo fun _ => hG a' b' h

omit [HostObject ω] in
theorem blind_apply {f : Mapping ω} (hf : ∀ g, f = .function g → ∀ v, Blind c view (cb.call g v))
    (v : Value ω) : Blind c view (f.apply cb v) := by
  unfold Mapping.apply
  split
  · exact .pure rfl
  · exact .pure rfl
  · exact .pure rfl
  · exact .pure rfl
  · exact hf _ rfl v
  · exact .pure rfl

theorem relates_map {f : Mapping ω} (hp : Relates c view (Outcome.Twins F) (p.run cb) (p'.run cb))
    (hf : ∀ v, Blind c view (f.apply cb v)) :
    Relates c view (Outcome.Twins F) ((map p f).run cb) ((map p' f).run cb) := by
  rw [run, run]
  refine .bind hp fun a b hab => relates_ifSucceeded hab ?_ fun _ _ _ => .pure hab
  rintro rfl -
  exact .after .ask fun v => .after (hf v) fun w => .pure (.success rfl)

theorem relates_rewind (hp : Relates c view (Outcome.Twins F) (p.run cb) (p'.run cb)) :
    Relates c view (Outcome.Twins F) ((rewind p).run cb) ((rewind p').run cb) := by
  rw [run, run]
  refine .after .save fun m => .bind hp fun a b hab => ?_
  exact relates_ifSucceeded hab (fun _ _ => .pure hab) fun _ _ _ =>
    .after .rewindTo fun _ => .pure hab

theorem relates_option {default : Value ω}
    (hp : Relates c view (Outcome.Twins F) (p.run cb) (p'.run cb)) :
    Relates c view (Outcome.Twins G) ((option default p).run cb) ((option default p').run cb) := by
  rw [run, run]
  refine .after .save fun m => .bind hp fun a b hab => relates_ifSucceeded hab ?_ fun _ _ _ =>
    .after .rewindTo fun _ => .pure (.success rfl)
  rintro rfl ha
  exact .pure (.success ha)

theorem relates_looped {ch : Level.Channel} {message message' : String}
    {x y : Action ω σ (Outcome ω)} (hxy : Relates c view (Outcome.Twins F) x y) :
    ∀ (n : Nat) (done : List (Value ω)),
      Relates c view Eq (looped ch message x n done) (looped ch message' y n done)
  | 0, _ => .exhausted
  | n + 1, done => by
    rw [looped, looped]
    refine .after .save fun m => .bind hxy fun a b hab => ?_
    refine relates_ifSucceeded hab ?_ fun _ _ _ => .after .rewindTo fun _ => .pure rfl
    rintro rfl -
    -- The cursors are the same, so the progress of both is checked alike.
    exact .bind relates_checkProgress fun _ _ _ => .after .ask fun v =>
      relates_looped hxy n (v :: done)

theorem relates_many (hp : Relates c view (Outcome.Twins F) (p.run cb) (p'.run cb)) :
    Relates c view (Outcome.Twins G) ((many p).run cb) ((many p').run cb) := by
  rw [run, run, repeated_eq_looped, repeated_eq_looped]
  refine .bind (relates_looped hp _ _) ?_
  rintro vs _ rfl
  exact .pure (.success rfl)

section Separated

variable {item item' sep sep' : Action ω σ (Outcome ω)}
  (hi : Relates c view (Outcome.Twins F) item item')
  (hs : Relates c view (Outcome.Twins G) sep sep')

include hi hs

theorem relates_pairing : Relates c view (Outcome.Twins fun a b => F a b ∨ G a b)
    (pairing item sep) (pairing item' sep') := by
  refine .bind hs fun a b hab => relates_ifSucceeded hab (fun _ _ => ?_) fun ha hb h =>
    .pure (.failure ha hb (.inr h))
  refine hi.mono fun a b hab => ?_
  cases hab with
  | success ha => exact .success ha
  | failure ha hb h => exact .failure ha hb (.inl h)

theorem relates_runSepBy1 {name name' : String} : Relates c view (Outcome.Twins F)
    (runSepBy1 cb name item sep) (runSepBy1 cb name' item' sep') := by
  unfold runSepBy1
  refine .bind hi fun a b hab => relates_ifSucceeded hab ?_ fun _ _ _ => .pure hab
  rintro rfl -
  refine .after .ask fun v => ?_
  rw [separated_eq_looped, separated_eq_looped]
  refine .bind (relates_looped (relates_pairing hi hs) _ _) ?_
  rintro vs _ rfl
  exact .pure (.success rfl)

end Separated

theorem relates_sepBy1 (hp : Relates c view (Outcome.Twins F) (p.run cb) (p'.run cb))
    (hq : Relates c view (Outcome.Twins G) (q.run cb) (q'.run cb)) :
    Relates c view (Outcome.Twins F) ((sepBy1 p q).run cb) ((sepBy1 p' q').run cb) := by
  rw [run, run]
  exact relates_runSepBy1 hp hq

theorem relates_sepBy (hp : Relates c view (Outcome.Twins F) (p.run cb) (p'.run cb))
    (hq : Relates c view (Outcome.Twins G) (q.run cb) (q'.run cb)) :
    Relates c view (Outcome.Twins H) ((sepBy p q).run cb) ((sepBy p' q').run cb) := by
  rw [run, run]
  refine .after .save fun m => .bind (relates_runSepBy1 hp hq) fun a b hab =>
    relates_ifSucceeded hab ?_ fun _ _ _ => .after .rewindTo fun _ => .pure (.success rfl)
  rintro rfl ha
  exact .pure (.success ha)

theorem relates_traced {label : String}
    (hp : Relates c view (Outcome.Twins F) (p.run cb) (p'.run cb))
    (hF : ∀ a b, F a b → ∃ e e', a.error = .ok e ∧ b.error = .ok e') :
    Relates c view (Outcome.Twins F) ((traced label p).run cb) ((traced label p').run cb) := by
  rw [run, run]
  refine .after (blind_runTrace label) fun _ => .after .save fun m => .bind hp fun a b hab => ?_
  refine relates_ifSucceeded hab ?_ fun _ _ h => ?_
  · rintro rfl -
    exact .after .ask fun v => .bind (relates_logShown _ _ _ _) fun _ _ _ => .pure hab
  · obtain ⟨e, e', he, he'⟩ := hF a b h
    refine .after .rewindTo fun _ => .after (blind_runTrace _) fun _ => ?_
    simp only [he, he', monadLift_ok, pure_bind]
    exact .bind (relates_logShown _ _ _ _) fun _ _ _ => .pure hab

end Parser

end ParserAlgebra
