import ParserAlgebra.Proofs.Combinators

/-!
# Where a failure comes from

The lemmas of `Proofs/Steps` read backwards: a combinator that returned a failure had it from one of
its parts, and this part ran from a known state. What else the combinator did, it did not do to the
state of the host program, but for the conversion of the error.
-/

namespace ParserAlgebra

variable {ω σ α β : Type} {c : Context ω} {s t u : State ω σ}

namespace Action

theorem ask_returned {q : Except Fault α} {a : α} :
    (liftM q : Action ω σ α) c s = (.returned a, t) ↔ q = .ok a ∧ t = s := by
  rcases q with f | b
  · refine ⟨fun h => ?_, fun h => by cases h.1⟩
    have hf : (fault f : Action ω σ α) c s = (.returned a, t) := h
    simp at hf
  · have hb : (liftM (Except.ok b : Except Fault α) : Action ω σ α) c s = (.returned b, s) := rfl
    simp [hb, eq_comm]

theorem ask_bind_returned {q : Except Fault α} {f : α → Action ω σ β} {b : β} :
    (liftM q >>= f) c s = (.returned b, t) ↔ ∃ a, q = .ok a ∧ f a c s = (.returned b, t) := by
  simp only [bind_returned, ask_returned]
  constructor
  · rintro ⟨a, _, ⟨hq, rfl⟩, h⟩
    exact ⟨a, hq, h⟩
  · rintro ⟨a, hq, h⟩
    exact ⟨a, s, ⟨hq, rfl⟩, h⟩

theorem ifSucceeded_returned [HostObject ω] {res : Outcome ω} {x y : Action ω σ α} {a : α}
    (h : (do if ← res.succeeded then x else y : Action ω σ α) c s = (.returned a, t)) :
    res.succeeded = .ok true ∧ x c s = (.returned a, t) ∨
      res.succeeded = .ok false ∧ y c s = (.returned a, t) := by
  obtain ⟨b, hb, h⟩ := ask_bind_returned.1 h
  rcases b with _ | _
  · exact .inr ⟨hb, h⟩
  · exact .inl ⟨hb, h⟩

/-- It does nothing but write to the log. -/
def Logs (c : Context ω) (x : Action ω σ α) : Prop :=
  ∀ s a t, x c s = (.returned a, t) → t.cursor = s.cursor ∧ t.own = s.own

namespace Logs

variable {x : Action ω σ α}

protected theorem pure (a : α) : (Pure.pure a : Action ω σ α).Logs c := by
  intro s b t h
  obtain ⟨-, rfl⟩ := by simpa using h
  exact ⟨rfl, rfl⟩

protected theorem bind {f : α → Action ω σ β} (hx : x.Logs c) (hf : ∀ a, (f a).Logs c) :
    (x >>= f).Logs c := by
  intro s b t h
  obtain ⟨a, u, ha, hb⟩ := bind_returned.1 h
  obtain ⟨hc, ho⟩ := hx s a u ha
  obtain ⟨hc', ho'⟩ := hf a u b t hb
  exact ⟨hc'.trans hc, ho'.trans ho⟩

theorem ask (q : Except Fault α) : (liftM q : Action ω σ α).Logs c := by
  intro s a t h
  obtain ⟨-, rfl⟩ := ask_returned.1 h
  exact ⟨rfl, rfl⟩

theorem context : (context : Action ω σ (Context ω)).Logs c := by
  intro s a t h
  obtain ⟨-, rfl⟩ := by simpa using h
  exact ⟨rfl, rfl⟩

theorem cursor : (cursor : Action ω σ (Cursor ω)).Logs c := by
  intro s a t h
  obtain ⟨-, rfl⟩ := by simpa using h
  exact ⟨rfl, rfl⟩

theorem writes (l : Level) : (writes l : Action ω σ Bool).Logs c := by
  intro s a t h
  obtain ⟨-, rfl⟩ := by simpa [Action.writes] using h
  exact ⟨rfl, rfl⟩

theorem log (l : Level) (ch : Level.Channel) (m : String) :
    (log l ch m : Action ω σ Unit).Logs c := by
  intro s a t h
  simp only [Action.log, Prod.mk.injEq] at h
  obtain ⟨-, rfl⟩ := h
  split <;> exact ⟨rfl, rfl⟩

theorem note (l : Level) (ch : Level.Channel) (m : Except Fault String) :
    (note l ch m : Action ω σ Unit).Logs c := by
  rcases m with f | m
  · rw [note_error]
    exact .pure _
  · rw [note_ok]
    exact .log l ch m

end Logs

end Action

namespace Parser

open ParserAlgebra.Action

variable [HostObject ω] {cb : Callbacks ω σ} {p q : Parser ω} {a : Outcome ω}

theorem logs_runTrace (label : String) : (runTrace label : Action ω σ Unit).Logs c := by
  unfold runTrace
  refine .bind (.writes _) fun b => ?_
  split
  · exact .bind .cursor fun d => .bind .context fun _ => .bind (.ask _) fun _ => .log _ _ _
  · exact .pure _

theorem logs_logShown (ch : Level.Channel) (said : String) (v : Value ω) :
    (logShown ch said v : Action ω σ Unit).Logs c := .note _ _ _

/-- The error is converted from where the failure left off; its place is handed on. -/
theorem retarget_returned {name : String} {source target : Declared ω} {b : Outcome ω}
    (h : retarget cb name source target b c t = (.returned a, u)) :
    ∃ k e pos e', source = .kind k ∧ k.isInfallible = false ∧ b.error = .ok e ∧
      b.pos = .ok pos ∧ Conversion.coerce cb e target c t = (.returned e', u) ∧
      a = .err e' pos := by
  unfold retarget at h
  obtain ⟨k, hk, h⟩ := ask_bind_returned.1 h
  rcases source with l | v
  · obtain rfl : l = k := Except.ok.inj hk
    rcases hi : l.isInfallible with _ | _
    · rw [if_neg (by simp [hi])] at h
      obtain ⟨e, he, h⟩ := ask_bind_returned.1 h
      obtain ⟨e', r, hc, h⟩ := bind_returned.1 h
      obtain ⟨pos, hp, h⟩ := ask_bind_returned.1 h
      obtain ⟨rfl, rfl⟩ := by simpa using h
      exact ⟨l, e, pos, e', rfl, hi, he, hp, hc, rfl⟩
    · rw [if_pos hi] at h
      obtain ⟨e, -, h⟩ := ask_bind_returned.1 h
      obtain ⟨said, -, h⟩ := ask_bind_returned.1 h
      simp at h
  · cases hk

/-- A traced parser hands on the outcome of its part, and only takes a failure back. -/
theorem traced_returned {label : String} (h : (traced label p).run cb c s = (.returned a, u)) :
    ∃ r t, runTrace label c s = (.returned (), r) ∧ p.run cb c r = (.returned a, t) ∧
      u.own = t.own ∧ (a.succeeded = .ok true ∧ u.cursor = t.cursor ∨
        a.succeeded = .ok false ∧ u.cursor = (t.backTo r.cursor.toMark).cursor) := by
  rw [run] at h
  obtain ⟨⟨⟩, r, hr, h⟩ := bind_returned.1 h
  rw [bind_apply, save_apply] at h
  obtain ⟨b, t, hp, h⟩ := bind_returned.1 h
  rcases ifSucceeded_returned h with ⟨hb, h⟩ | ⟨hb, h⟩
  · obtain ⟨v, -, h⟩ := ask_bind_returned.1 h
    obtain ⟨⟨⟩, t', h', h⟩ := bind_returned.1 h
    obtain ⟨rfl, rfl⟩ := by simpa using h
    obtain ⟨hc, ho⟩ := logs_logShown _ _ _ _ _ _ h'
    exact ⟨r, t, hr, hp, ho, .inl ⟨hb, hc⟩⟩
  · rw [bind_apply, rewindTo_apply] at h
    obtain ⟨⟨⟩, t₁, h₁, h⟩ := bind_returned.1 h
    obtain ⟨e, -, h⟩ := ask_bind_returned.1 h
    obtain ⟨⟨⟩, t₂, h₂, h⟩ := bind_returned.1 h
    obtain ⟨rfl, rfl⟩ := by simpa using h
    obtain ⟨hc₁, ho₁⟩ := logs_runTrace _ _ _ _ h₁
    obtain ⟨hc₂, ho₂⟩ := logs_logShown _ _ _ _ _ _ h₂
    exact ⟨r, t, hr, hp, ho₂.trans ho₁, .inr ⟨hb, hc₂.trans hc₁⟩⟩

/-! ## From the failure of a combinator to that of a part -/

section Failure

variable (ha : a.succeeded = .ok false)

include ha

theorem failure_of_seq (h : (seq p q).run cb c s = (.returned a, u)) :
    (∃ b t, p.run cb c s = (.returned b, t) ∧ b.succeeded = .ok false ∧
      retarget cb p.name p.declares (seq p q).declares b c t = (.returned a, u)) ∨
    ∃ d r b t, p.run cb c s = (.returned d, r) ∧ d.succeeded = .ok true ∧
      q.run cb c r = (.returned b, t) ∧ b.succeeded = .ok false ∧
      retarget cb q.name q.declares (seq p q).declares b c t = (.returned a, u) := by
  rw [run] at h
  obtain ⟨d, r, hp, h⟩ := bind_returned.1 h
  rcases ifSucceeded_returned h with ⟨hd, h⟩ | ⟨hd, h⟩
  · obtain ⟨b, t, hq, h⟩ := bind_returned.1 h
    rcases ifSucceeded_returned h with ⟨-, h⟩ | ⟨hb, h⟩
    · obtain ⟨v, -, h⟩ := ask_bind_returned.1 h
      obtain ⟨w, -, h⟩ := ask_bind_returned.1 h
      obtain ⟨rfl, -⟩ := by simpa using h
      cases ha
    · exact .inr ⟨d, r, b, t, hp, hd, hq, hb, h⟩
  · exact .inl ⟨d, r, hp, hd, h⟩

theorem failure_of_alt (h : (alt p q).run cb c s = (.returned a, u)) :
    ∃ d r b t, p.run cb c s = (.returned d, r) ∧ d.succeeded = .ok false ∧
      q.run cb c (r.backTo s.cursor.toMark) = (.returned b, t) ∧ b.succeeded = .ok false ∧
      retarget cb q.name q.declares (alt p q).declares b c (t.backTo s.cursor.toMark) =
        (.returned a, u) := by
  rw [run, bind_apply, save_apply] at h
  obtain ⟨d, r, hp, h⟩ := bind_returned.1 h
  rcases ifSucceeded_returned h with ⟨hd, h⟩ | ⟨hd, h⟩
  · obtain ⟨rfl, -⟩ := by simpa using h
    cases hd.symm.trans ha
  · rw [bind_apply, rewindTo_apply] at h
    obtain ⟨b, t, hq, h⟩ := bind_returned.1 h
    rcases ifSucceeded_returned h with ⟨hb, h⟩ | ⟨hb, h⟩
    · obtain ⟨rfl, -⟩ := by simpa using h
      cases hb.symm.trans ha
    · exact ⟨d, r, b, t, hp, hd, hq, hb, h⟩

theorem failure_of_map {f : Mapping ω} (h : (map p f).run cb c s = (.returned a, u)) :
    p.run cb c s = (.returned a, u) := by
  rw [run] at h
  obtain ⟨b, t, hp, h⟩ := bind_returned.1 h
  rcases ifSucceeded_returned h with ⟨-, h⟩ | ⟨-, h⟩
  · obtain ⟨v, -, h⟩ := ask_bind_returned.1 h
    obtain ⟨w, _, -, h⟩ := bind_returned.1 h
    obtain ⟨rfl, -⟩ := by simpa using h
    cases ha
  · obtain ⟨rfl, rfl⟩ := by simpa using h
    exact hp

theorem failure_of_rewind (h : (rewind p).run cb c s = (.returned a, u)) :
    ∃ t, p.run cb c s = (.returned a, t) ∧ u = t.backTo s.cursor.toMark := by
  rw [run, bind_apply, save_apply] at h
  obtain ⟨b, t, hp, h⟩ := bind_returned.1 h
  rcases ifSucceeded_returned h with ⟨hb, h⟩ | ⟨-, h⟩
  · obtain ⟨rfl, -⟩ := by simpa using h
    cases hb.symm.trans ha
  · obtain ⟨rfl, rfl⟩ := by simpa [bind_apply] using h
    exact ⟨t, hp, rfl⟩

theorem failure_of_runSepBy1 {name : String} {item sep : Action ω σ (Outcome ω)}
    (h : runSepBy1 cb name item sep c s = (.returned a, u)) : item c s = (.returned a, u) := by
  unfold runSepBy1 at h
  obtain ⟨b, t, hp, h⟩ := bind_returned.1 h
  rcases ifSucceeded_returned h with ⟨-, h⟩ | ⟨-, h⟩
  · obtain ⟨v, -, h⟩ := ask_bind_returned.1 h
    obtain ⟨vs, _, -, h⟩ := bind_returned.1 h
    obtain ⟨rfl, -⟩ := by simpa using h
    cases ha
  · obtain ⟨rfl, rfl⟩ := by simpa using h
    exact hp

theorem failure_of_sepBy1 (h : (sepBy1 p q).run cb c s = (.returned a, u)) :
    p.run cb c s = (.returned a, u) := by
  rw [run] at h
  exact failure_of_runSepBy1 ha h

theorem failure_of_traced {label : String} (h : (traced label p).run cb c s = (.returned a, u)) :
    ∃ r t, runTrace label c s = (.returned (), r) ∧ p.run cb c r = (.returned a, t) ∧
      u.cursor = (t.backTo r.cursor.toMark).cursor ∧ u.own = t.own := by
  obtain ⟨r, t, hr, hp, hown, ⟨hb, -⟩ | ⟨-, hcursor⟩⟩ := traced_returned h
  · cases hb.symm.trans ha
  · exact ⟨r, t, hr, hp, hcursor, hown⟩

theorem no_failure_of_option {default : Value ω} :
    (option default p).run cb c s ≠ (.returned a, u) := fun h =>
  absurd ((ensures_option lenient_any (P := fun res => res.succeeded = .ok true) (fun _ h => h)
    (.any (p.run cb))).returned h) (by simp [ha])

theorem no_failure_of_many : (many p).run cb c s ≠ (.returned a, u) := fun h =>
  absurd ((ensures_many lenient_any (P := fun res => res.succeeded = .ok true) (fun _ h => h)
    (fun _ => trivial) (.any (p.run cb))).returned h) (by simp [ha])

theorem no_failure_of_sepBy : (sepBy p q).run cb c s ≠ (.returned a, u) := fun h =>
  absurd ((ensures_sepBy lenient_any (P := fun res => res.succeeded = .ok true) (fun _ h => h)
    (fun _ => trivial) (.any (p.run cb)) (.any (q.run cb))).returned h) (by simp [ha])

end Failure

end Parser

end ParserAlgebra
