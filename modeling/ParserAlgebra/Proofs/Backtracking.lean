import ParserAlgebra.Assignment
import ParserAlgebra.Proofs.Building
import ParserAlgebra.Proofs.Failing
import ParserAlgebra.Proofs.Repetition
import ParserAlgebra.Proofs.Truthful

/-!
# What a failure gives back

An alternative, a rewound parser and a traced one end a failure at the place where they began, and a
repetition ends where its last complete match did (`Parser.backtracking`). So what is put together of
parts that give everything back when they fail does so too. A sequence does not, and so a choice of one
alternative does not either: it is that alternative itself (`Parser.choice_givesBack`).
-/

namespace ParserAlgebra

variable {ω σ α β : Type} {c : Context ω} {s t u : State ω σ}

namespace Action

/-- If it returns, the cursor is where it was. -/
def Stays (c : Context ω) (x : Action ω σ α) : Prop :=
  ∀ s a t, x c s = (.returned a, t) → t.cursor.toMark = s.cursor.toMark

theorem Stays.of_logs {x : Action ω σ α} (hx : x.Logs c) : x.Stays c :=
  fun s a t h => congrArg _ (hx s a t h).1

end Action

variable [HostObject ω] {cb : Callbacks ω σ}

/-- Converting an error does not move the cursor. -/
def ConversionsStay (cb : Callbacks ω σ) (c : Context ω) : Prop :=
  ∀ (e : Value ω) (d : Declared ω) (conv : Conversion ω),
    c.registry.route? e.kindOf d = .ok (some conv) → (Conversion.apply cb d e conv).Stays c

/-- An error that is returned was left as it is, or a declared conversion made it. -/
theorem Conversion.coerce_returned {e e' : Value ω} {d : Declared ω}
    (h : coerce cb e d c s = (.returned e', t)) : e' = e ∧ t = s ∨
      ∃ conv, c.registry.route? e.kindOf d = .ok (some conv) ∧
        apply cb d e conv c s = (.returned e', t) := by
  by_cases ha : d.Admits e
  · rw [coerce_of_admits ha] at h
    obtain ⟨rfl, rfl⟩ : e = e' ∧ s = t := by simpa using h
    exact .inl ⟨rfl, rfl⟩
  · rcases d with k | v
    · rcases hf : c.registry.find? e.kindOf k with _ | conv
      · exact ((ensures_coerce_of_none ha hf).returned h).elim
      · rw [coerce_of_find? ha hf] at h
        exact .inr ⟨conv, congrArg Except.ok hf, h⟩
    · unfold coerce at h
      rw [if_neg (by simp [Declared.isUndeclared])] at h
      rcases hv : (Declared.plain v : Declared ω).holds? e.kindOf with _ | _ | _ <;>
        simp only [hv] at h
      · simp at h
      · obtain ⟨_, _, hctx, h⟩ := Action.bind_returned.1 h
        obtain ⟨rfl, rfl⟩ := by simpa using hctx
        obtain ⟨conv?, hs, h⟩ := Action.ask_bind_returned.1 h
        rcases conv? with _ | conv
        · simp at h
        · exact .inr ⟨conv, hs, h⟩
      · exact absurd (.inr hv) ha

theorem Conversion.coerce_stays (hc : ConversionsStay cb c) (e : Value ω) (d : Declared ω) :
    (coerce cb e d).Stays c := by
  intro s e' t h
  rcases coerce_returned h with ⟨-, rfl⟩ | ⟨conv, hroute, happly⟩
  · rfl
  · exact hc e d conv hroute s e' t happly

namespace Parser

variable {p q r : Parser ω} {a : Outcome ω}

theorem retarget_stays (hc : ConversionsStay cb c) (name : String) (source target : Declared ω)
    (b : Outcome ω) : (retarget cb name source target b).Stays c := by
  intro s a u h
  obtain ⟨_, e, _, e', -, -, -, -, he, -⟩ := retarget_returned h
  exact Conversion.coerce_stays hc e target s e' u he

/-- A failure leaves the cursor where the parser began. -/
def GivesBack (cb : Callbacks ω σ) (c : Context ω) (p : Parser ω) : Prop :=
  ∀ {s a u}, p.run cb c s = (.returned a, u) → a.succeeded = .ok false →
    u.cursor.toMark = s.cursor.toMark

/-! ## Parsers that give back what they consumed -/

theorem givesBack_alt (hc : ConversionsStay cb c) (p q : Parser ω) :
    (alt p q).GivesBack cb c := by
  intro s a u h ha
  obtain ⟨d, r, b, t, -, -, -, -, hr⟩ := failure_of_alt ha h
  exact retarget_stays hc _ _ _ b (t.backTo s.cursor.toMark) a u hr

theorem givesBack_rewind (p : Parser ω) : (rewind p).GivesBack cb c := by
  intro s a u h ha
  obtain ⟨t, -, rfl⟩ := failure_of_rewind ha h
  rfl

theorem givesBack_traced (label : String) (p : Parser ω) : (traced label p).GivesBack cb c := by
  intro s a u h ha
  obtain ⟨r, t, hr, -, hu, -⟩ := failure_of_traced ha h
  have hback : u.cursor.toMark = r.cursor.toMark := by rw [hu, State.backTo_toMark]
  rw [hback, (logs_runTrace label s () r hr).1]

theorem givesBack_fail (e : Value ω) : (fail e).GivesBack cb c := by
  intro s a u h _
  obtain ⟨-, rfl⟩ : _ ∧ s = u := by simpa [run, Action.bind_apply] using h
  rfl

/-- A choice of two alternatives or more is an alternative, whatever the first one does. -/
theorem givesBack_foldl_alt (hc : ConversionsStay cb c) {ps : List (Parser ω)}
    (hp : ps ≠ [] ∨ p.GivesBack cb c) : (ps.foldl alt p).GivesBack cb c := by
  induction ps generalizing p with
  | nil => exact hp.resolve_left fun h => h rfl
  | cons q ps ih => exact ih (.inr (givesBack_alt hc p q))

theorem GivesBack.convert (hc : ConversionsStay cb c) (hp : p.GivesBack cb c)
    (target : Declared ω) : (convert p target).GivesBack cb c := by
  intro s a u h ha
  rw [run] at h
  obtain ⟨b, t, hb, h⟩ := Action.bind_returned.1 h
  rcases Action.ifSucceeded_returned h with ⟨hok, h⟩ | ⟨hfail, h⟩
  · obtain ⟨rfl, -⟩ : b = a ∧ t = u := by simpa using h
    cases hok.symm.trans ha
  · exact (retarget_stays hc _ _ _ b t a u h).trans (hp hb hfail)

theorem GivesBack.mapErr {f : ω} (hp : p.GivesBack cb c) (hf : ∀ e, (cb.call f e).Stays c)
    (err : Declared ω) : (mapErr p f err).GivesBack cb c := by
  intro s a u h ha
  rw [run] at h
  obtain ⟨b, t, hb, h⟩ := Action.bind_returned.1 h
  rcases Action.ifSucceeded_returned h with ⟨hok, h⟩ | ⟨hfail, h⟩
  · obtain ⟨rfl, -⟩ : b = a ∧ t = u := by simpa using h
    cases hok.symm.trans ha
  · obtain ⟨e, -, h⟩ := Action.ask_bind_returned.1 h
    obtain ⟨e', t', he, h⟩ := Action.bind_returned.1 h
    obtain ⟨pos, -, h⟩ := Action.ask_bind_returned.1 h
    obtain ⟨-, rfl⟩ : Outcome.err e' pos = a ∧ t' = u := by simpa using h
    exact (hf e t e' t' he).trans (hp hb hfail)

/-- The repetition after the first part does not fail. -/
theorem GivesBack.many1 (hc : ConversionsStay cb c) (hp : p.GivesBack cb c) :
    (map (seq p (many p)) .cons).GivesBack cb c := by
  intro s a u h ha
  rcases failure_of_seq ha (failure_of_map ha h) with
    ⟨b, t, hb, hfail, hr⟩ | ⟨_, _, _, _, -, -, hmany, hfail, -⟩
  · exact (retarget_stays hc _ _ _ b t a u hr).trans (hp hb hfail)
  · exact absurd hmany (no_failure_of_many hfail)

/-! ## Where a repetition ends -/

theorem checkProgress_returned {ch : Level.Channel} {message : String} {m : Mark ω} {i : Unit}
    (h : checkProgress ch message m c s = (.returned i, t)) : t = s := by
  unfold checkProgress at h
  rw [Action.bind_apply, Action.save_apply] at h
  obtain ⟨still, -, h⟩ := Action.ask_bind_returned.1 h
  split at h
  · rw [Action.bind_apply, Action.context_apply] at h
    obtain ⟨on, -, h⟩ := Action.ask_bind_returned.1 h
    split at h
    · obtain ⟨_, _, -, h⟩ := Action.bind_returned.1 h
      obtain ⟨said, -, h⟩ := Action.ask_bind_returned.1 h
      simp at h
    · exact (by simpa using h : s = t).symm
  · exact (by simpa using h : s = t).symm

/-- From `s` attempts succeed in a row with the values `vs`, and the one after them, from `t`, fails:
`t` is where the last complete match ended. -/
structure Matched (c : Context ω) (attempt : Action ω σ (Outcome ω)) (s : State ω σ)
    (vs : List (Value ω)) (t : State ω σ) : Prop where
  row : Strides c (fun _ _ => True) attempt s vs t
  failed : ∃ b v, attempt c t = (.returned b, v) ∧ b.succeeded = .ok false

/-- Whether progress is checked or not, a repetition that returns gives back what the failed attempt
consumed. -/
theorem looped_returned {ch : Level.Channel} {message : String}
    {attempt : Action ω σ (Outcome ω)} {vs : List (Value ω)} :
    ∀ {n : Nat} {done : List (Value ω)} {s : State ω σ},
      looped ch message attempt n done c s = (.returned vs, u) →
        ∃ ws t, Matched c attempt s ws t ∧ vs = done.reverse ++ ws ∧
          u.cursor.toMark = t.cursor.toMark
  | 0, done, s, h => by simp [looped] at h
  | n + 1, done, s, h => by
    rw [looped, Action.bind_apply, Action.save_apply] at h
    obtain ⟨b, t, hb, h⟩ := Action.bind_returned.1 h
    rcases Action.ifSucceeded_returned h with ⟨hok, h⟩ | ⟨hfail, h⟩
    · obtain ⟨_, t', hgo, hnext⟩ := Action.bind_returned.1 h
      obtain rfl := checkProgress_returned hgo
      obtain ⟨v, hv, hnext⟩ := Action.ask_bind_returned.1 hnext
      obtain ⟨ws, w, hws, rfl, hu⟩ := looped_returned hnext
      refine ⟨v :: ws, w, ⟨.cons hb hok hv trivial hws.row, hws.failed⟩, ?_, hu⟩
      rw [List.reverse_cons, List.append_assoc, List.singleton_append]
    · -- The loop ends here: the attempt began at `s`, and what it consumed is given back.
      obtain ⟨rfl, rfl⟩ : done.reverse = vs ∧ t.backTo s.cursor.toMark = u := by
        simpa [Action.bind_apply] using h
      exact ⟨[], s, ⟨.nil s, b, t, hb, hfail⟩, (List.append_nil _).symm, rfl⟩

theorem many_returned (h : (many p).run cb c s = (.returned a, u)) :
    ∃ vs t, Matched c (p.run cb) s vs t ∧ a = .ok (.list vs) ∧
      u.cursor.toMark = t.cursor.toMark := by
  rw [run] at h
  obtain ⟨vs, t, hvs, h⟩ := Action.bind_returned.1 h
  obtain ⟨rfl, rfl⟩ : Outcome.ok (.list vs) = a ∧ t = u := by simpa using h
  rw [repeated_eq_looped] at hvs
  obtain ⟨_, w, hws, rfl, hu⟩ := looped_returned hvs
  exact ⟨vs, w, hws, rfl, hu⟩

/-- Items with separators between them fail with the first item, and otherwise end where the last item
that is complete did. -/
theorem runSepBy1_returned {name : String} {item sep : Action ω σ (Outcome ω)}
    (h : runSepBy1 cb name item sep c s = (.returned a, u)) :
    (a.succeeded = .ok false ∧ item c s = (.returned a, u)) ∨
      ∃ b v r vs t, item c s = (.returned b, r) ∧ b.succeeded = .ok true ∧ b.value = .ok v ∧
        Matched c (pairing item sep) r vs t ∧ a = .ok (.list (v :: vs)) ∧
        u.cursor.toMark = t.cursor.toMark := by
  unfold runSepBy1 at h
  obtain ⟨b, r, hb, h⟩ := Action.bind_returned.1 h
  rcases Action.ifSucceeded_returned h with ⟨hok, h⟩ | ⟨hfail, h⟩
  · obtain ⟨v, hv, h⟩ := Action.ask_bind_returned.1 h
    obtain ⟨vs, t, hvs, h⟩ := Action.bind_returned.1 h
    obtain ⟨rfl, rfl⟩ : Outcome.ok (.list vs) = a ∧ t = u := by simpa using h
    rw [separated_eq_looped] at hvs
    obtain ⟨ws, w, hws, rfl, hu⟩ := looped_returned hvs
    exact .inr ⟨b, v, r, ws, w, hb, hok, hv, hws, rfl, hu⟩
  · obtain ⟨rfl, rfl⟩ : b = a ∧ r = u := by simpa using h
    exact .inl ⟨hfail, hb⟩

theorem sepBy_returned (h : (sepBy p q).run cb c s = (.returned a, u)) :
    (∃ b t, p.run cb c s = (.returned b, t) ∧ b.succeeded = .ok false ∧ a = .ok (.list []) ∧
      u.cursor.toMark = s.cursor.toMark) ∨
    ∃ b v r vs t, p.run cb c s = (.returned b, r) ∧ b.succeeded = .ok true ∧ b.value = .ok v ∧
      Matched c (pairing (p.run cb) (q.run cb)) r vs t ∧ a = .ok (.list (v :: vs)) ∧
      u.cursor.toMark = t.cursor.toMark := by
  rw [run, Action.bind_apply, Action.save_apply] at h
  obtain ⟨b, t, hb, h⟩ := Action.bind_returned.1 h
  rcases Action.ifSucceeded_returned h with ⟨hok, h⟩ | ⟨hfail, h⟩
  · obtain ⟨rfl, rfl⟩ : b = a ∧ t = u := by simpa using h
    exact .inr ((runSepBy1_returned hb).resolve_left fun hf => by simp [hok] at hf)
  · obtain ⟨rfl, rfl⟩ : Outcome.ok (.list []) = a ∧ t.backTo s.cursor.toMark = u := by
      simpa [Action.bind_apply] using h
    exact .inl ⟨b, t, failure_of_runSepBy1 hfail hb, hfail, rfl, rfl⟩

theorem option_returned {default : Value ω}
    (h : (option default p).run cb c s = (.returned a, u)) :
    (a.succeeded = .ok true ∧ p.run cb c s = (.returned a, u)) ∨
      ∃ b t, p.run cb c s = (.returned b, t) ∧ b.succeeded = .ok false ∧ a = .ok default ∧
        u.cursor.toMark = s.cursor.toMark := by
  rw [run, Action.bind_apply, Action.save_apply] at h
  obtain ⟨b, t, hb, h⟩ := Action.bind_returned.1 h
  rcases Action.ifSucceeded_returned h with ⟨hok, h⟩ | ⟨hfail, h⟩
  · obtain ⟨rfl, rfl⟩ : b = a ∧ t = u := by simpa using h
    exact .inl ⟨hok, hb⟩
  · obtain ⟨rfl, rfl⟩ : Outcome.ok default = a ∧ t.backTo s.cursor.toMark = u := by
      simpa [Action.bind_apply] using h
    exact .inr ⟨b, t, hb, hfail, rfl, rfl⟩

/-! ## The discipline -/

/-- The parsers that are built from parsers which give back what they consumed when they fail, without
sequences. The functions that make another error of an error do not move the cursor. -/
inductive Backtracks (cb : Callbacks ω σ) (c : Context ω) : Parser ω → Prop
  | leaf {p : Parser ω} (h : p.GivesBack cb c) : Backtracks cb c p
  | map {p : Parser ω} (hp : Backtracks cb c p) (f : Mapping ω) : Backtracks cb c (map p f)
  | mapErr {p : Parser ω} {f : ω} (hp : Backtracks cb c p) (hf : ∀ e, (cb.call f e).Stays c)
      (err : Declared ω) : Backtracks cb c (mapErr p f err)
  | convert {p : Parser ω} (hp : Backtracks cb c p) (target : Declared ω) :
      Backtracks cb c (convert p target)
  | rewind {p : Parser ω} (hp : Backtracks cb c p) : Backtracks cb c (rewind p)
  | alt {p q : Parser ω} (hp : Backtracks cb c p) (hq : Backtracks cb c q) :
      Backtracks cb c (alt p q)
  | choice {os : List (Operand ω)} {r : Parser ω} {c₀ : Context ω} {s₀ t₀ : State ω σ}
      (hos : ∀ o ∈ os, ∀ p, o.toParser none = .ok p → Backtracks cb c p)
      (h : mkChoice os c₀ s₀ = (.returned r, t₀)) : Backtracks cb c r
  | option {p : Parser ω} (default : Value ω) (hp : Backtracks cb c p) :
      Backtracks cb c (option default p)
  | many {p : Parser ω} (hp : Backtracks cb c p) : Backtracks cb c (many p)
  | many1 {p r : Parser ω} {c₀ : Context ω} {s₀ t₀ : State ω σ} (hp : Backtracks cb c p)
      (h : mkMany1 p c₀ s₀ = (.returned r, t₀)) : Backtracks cb c r
  | sepBy {p q : Parser ω} (hp : Backtracks cb c p) (hq : Backtracks cb c q) :
      Backtracks cb c (sepBy p q)
  | sepBy1 {p q : Parser ω} (hp : Backtracks cb c p) (hq : Backtracks cb c q) :
      Backtracks cb c (sepBy1 p q)
  | traced {p : Parser ω} (label : String) (hp : Backtracks cb c p) : Backtracks cb c (traced label p)

theorem Backtracks.givesBack (hc : ConversionsStay cb c) (h : Backtracks cb c p) :
    p.GivesBack cb c := by
  induction h with
  | leaf h => exact h
  | map _ f ih => exact fun h ha => ih (failure_of_map ha h) ha
  | mapErr _ hf err ih => exact ih.mapErr hf err
  | convert _ target ih => exact ih.convert hc target
  | rewind _ _ => exact givesBack_rewind _
  | alt _ _ _ _ => exact givesBack_alt hc _ _
  | @choice os r c₀ s₀ t₀ _ h ih =>
    rcases os with _ | ⟨o, os⟩
    · obtain ⟨rfl, -⟩ : fail noAlternatives = r ∧ s₀ = t₀ := by simpa [mkChoice] using h
      exact givesBack_fail _
    · obtain ⟨p, ps, ho, -, -, rfl, -⟩ := mkChoice_returned.1 h
      exact givesBack_foldl_alt hc (.inr (ih o (List.mem_cons_self ..) p ho))
  | option default _ _ => exact fun h ha => absurd h (no_failure_of_option ha)
  | many _ _ => exact fun h ha => absurd h (no_failure_of_many ha)
  | many1 _ h ih =>
    obtain ⟨rfl, -⟩ := mkMany1_returned.1 h
    exact ih.many1 hc
  | sepBy _ _ _ _ => exact fun h ha => absurd h (no_failure_of_sepBy ha)
  | sepBy1 _ _ ih _ => exact fun h ha => ih (failure_of_sepBy1 ha h) ha
  | traced label _ _ => exact givesBack_traced label _

/-- Who gives back what was consumed, and where those end that do not fail. -/
structure Backtracking (cb : Callbacks ω σ) (c : Context ω) : Prop where
  alt : ∀ p q : Parser ω, (alt p q).GivesBack cb c
  rewind : ∀ p : Parser ω, (rewind p).GivesBack cb c
  traced : ∀ (label : String) (p : Parser ω), (traced label p).GivesBack cb c
  option : ∀ {default : Value ω} {p : Parser ω} {s a u},
    (option default p).run cb c s = (.returned a, u) →
      a.succeeded = .ok true ∧ (p.run cb c s = (.returned a, u) ∨
        ∃ b t, p.run cb c s = (.returned b, t) ∧ b.succeeded = .ok false ∧ a = .ok default ∧
          u.cursor.toMark = s.cursor.toMark)
  many : ∀ {p : Parser ω} {s a u}, (many p).run cb c s = (.returned a, u) →
    ∃ vs t, Matched c (p.run cb) s vs t ∧ a = .ok (.list vs) ∧
      u.cursor.toMark = t.cursor.toMark
  /-- A round after the first item is a separator and an item. -/
  sepBy : ∀ {p q : Parser ω} {s a u}, (sepBy p q).run cb c s = (.returned a, u) →
    (∃ b t, p.run cb c s = (.returned b, t) ∧ b.succeeded = .ok false ∧ a = .ok (.list []) ∧
      u.cursor.toMark = s.cursor.toMark) ∨
    ∃ b v r vs t, p.run cb c s = (.returned b, r) ∧ b.succeeded = .ok true ∧ b.value = .ok v ∧
      Matched c (pairing (p.run cb) (q.run cb)) r vs t ∧ a = .ok (.list (v :: vs)) ∧
      u.cursor.toMark = t.cursor.toMark
  composed : ∀ {p : Parser ω}, Backtracks cb c p → p.GivesBack cb c

/-- The parts may be any parsers, and consume what they like before they fail. -/
theorem backtracking (hc : ConversionsStay cb c) : Backtracking cb c where
  alt := givesBack_alt hc
  rewind := givesBack_rewind
  traced := givesBack_traced
  option h := by
    rcases option_returned h with ⟨ha, hp⟩ | ⟨b, t, hb, hfail, rfl, hu⟩
    · exact ⟨ha, .inl hp⟩
    · exact ⟨rfl, .inr ⟨b, t, hb, hfail, rfl, hu⟩⟩
  many := many_returned
  sepBy := sepBy_returned
  composed := Backtracks.givesBack hc

end Parser

theorem Assignment.conversionsStay {cb : Callbacks Function Unit} {settings : Settings Function}
    {threshold : Level} : ConversionsStay cb ⟨registry, settings, threshold⟩ := by
  rintro e (t | v) conv h
  · obtain ⟨-, rfl⟩ := find?_registry (Except.ok.inj h)
    exact .of_logs (.ask _)
  · exact absurd h (Registry.stray?_of_nil rfl _ v conv)

namespace Parser

/-- Both alternatives take the first character and fail at the second. -/
theorem backtracking_seq :
    let cb := Assignment.host.callbacks 3 1
    let c : Context Assignment.Function := ⟨Assignment.registry, {}, .warning⟩
    let s : State Assignment.Function Unit := ⟨⟨⟨1, none⟩, ['-', 'a', 'c']⟩, [], ()⟩
    let p : Parser Assignment.Function := .seq (.take "a") (.take "b")
    ConversionsStay cb c ∧
      (∃ a u, p.run cb c s = (.returned a, u) ∧ a.succeeded = .ok false ∧ u.cursor.pos = 2) ∧
      ∃ a u, (alt p p).run cb c s = (.returned a, u) ∧ a.succeeded = .ok false ∧
        u.cursor.toMark = s.cursor.toMark := by
  intro cb c s p
  have hc : ConversionsStay cb c := Assignment.conversionsStay
  exact ⟨hc, ⟨_, _, rfl, rfl, rfl⟩, _, _, rfl, rfl, (backtracking hc).alt p p rfl rfl⟩

/-! ## Choices -/

variable {o : Operand ω} {os : List (Operand ω)} {c₀ : Context ω} {s₀ t₀ : State ω σ}

/-- A choice of two alternatives or more gives back what its alternatives consumed. A choice of one is
that alternative, and gives back what the alternative does. -/
theorem choice_givesBack (hc : ConversionsStay cb c)
    (h : mkChoice (o :: os) c₀ s₀ = (.returned r, t₀)) :
    (os ≠ [] → r.GivesBack cb c) ∧ (os = [] → o.toParser none = .ok r) := by
  obtain ⟨p, ps, ho, hps, -, rfl, -⟩ := mkChoice_returned.1 h
  refine ⟨fun hos => givesBack_foldl_alt hc (.inl ?_), fun hos => ?_⟩
  · rintro rfl
    exact hos (List.forall₂_nil_right_iff.1 hps)
  · subst hos
    rw [List.forall₂_nil_left_iff.1 hps]
    exact ho

/-- Two alternatives that consume before they fail, and one of them alone. -/
theorem choice_givesBack_seq :
    let cb := Assignment.host.callbacks 3 1
    let c : Context Assignment.Function := ⟨Assignment.registry, {}, .warning⟩
    let s : State Assignment.Function Unit := ⟨.ofList ['a', 'c'], [], ()⟩
    let p : Parser Assignment.Function := .seq (.take "a") (.take "b")
    ConversionsStay cb c ∧
      (∃ r, mkChoice [.parser p, .parser p] c s = (.returned r, s) ∧ r.GivesBack cb c) ∧
      ∃ r, mkChoice [.parser p] c s = (.returned r, s) ∧
        (Operand.parser p).toParser none = .ok r := by
  intro cb c s p
  have hc : ConversionsStay cb c := Assignment.conversionsStay
  have two : mkChoice [.parser p, .parser p] c s = (.returned (alt p p), s) := rfl
  have one : mkChoice [.parser p] c s = (.returned p, s) := rfl
  exact ⟨hc, ⟨_, two, (choice_givesBack hc two).1 (by simp)⟩, _, one,
    (choice_givesBack hc one).2 rfl⟩

/-- A choice of one alternative that fails leaves the cursor where the alternative does. -/
theorem choice_of_one_moves :
    let cb := Assignment.host.callbacks 3 1
    let c : Context Assignment.Function := ⟨.empty, {}, .warning⟩
    let s : State Assignment.Function Unit := ⟨.ofList ['a', 'c'], [], ()⟩
    let p : Parser Assignment.Function := .seq (.take "a") (.take "b")
    ∃ r a u, mkChoice [.parser p] c s = (.returned r, s) ∧ r.run cb c s = (.returned a, u) ∧
      a.succeeded = .ok false ∧ u.cursor.toMark ≠ s.cursor.toMark := by
  refine ⟨_, _, _, rfl, rfl, rfl, fun h => ?_⟩
  cases congrArg Mark.pos h

end Parser

end ParserAlgebra
