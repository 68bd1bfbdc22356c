import ParserAlgebra.Proofs.Building
import ParserAlgebra.Proofs.Combinators
import ParserAlgebra.Proofs.Conversions

/-!
# Honest parsers

A parser is honest (`Parser.Honest`) if it declares a kind of error, fails only with instances of
that kind, and raises no breach of what is declared. The combinators that join two kinds check at
once that the errors of one can stand for the other (`Registry.Leads`). If every conversion returns
an instance of its target that is enough: what they make of honest parsers is honest.
-/

namespace ParserAlgebra

variable {ω σ : Type} [HostObject ω] {cb : Callbacks ω σ} {c : Context ω} {k l m : Kind}

/-- The exceptions that tell of parts that do not keep what they declare. -/
def Value.Breach (e : Value ω) : Prop :=
  e.kindOf = .conversionError ∨ e.kindOf = .infallibleViolation

/-- Whatever may be raised by a part but a breach. -/
abbrev Value.Lawful (e : Value ω) : Prop := ¬ e.Breach

theorem Fault.lawful {f : Fault} (h₁ : f.kind ≠ .conversionError)
    (h₂ : f.kind ≠ .infallibleViolation) : (f.exception : Value ω).Lawful :=
  fun h => h.elim h₁ h₂

theorem lenient_lawful : Lenient (Value.Lawful (ω := ω)) := by
  intro f hf
  have hk := f.kind_of_isMild hf
  refine Fault.lawful (fun h => ?_) fun h => ?_ <;> rw [h] at hk <;> revert hk <;> decide

/-- A breach is of no other kinds than exceptions, and of the kind that all values are of. -/
theorem Value.Breach.isException {e : Value ω} (h : e.Breach) (hk : e.isA k = true)
    (ho : k ≠ .object) : k.isException = true := by
  have hc : ∀ k ∈ Kind.conversionError.lineage, k = .object ∨ k.isException = true := by decide
  have hi : ∀ k ∈ Kind.infallibleViolation.lineage, k = .object ∨ k.isException = true := by decide
  have hm : k ∈ e.kindOf.lineage := Kind.isA_iff.1 hk
  rcases h with h | h <;> rw [h] at hm
  · exact (hc k hm).resolve_left ho
  · exact (hi k hm).resolve_left ho

/-- The error of a failure is an instance of `k`, if it has one. -/
def Outcome.FailsAs (k : Kind) (res : Outcome ω) : Prop :=
  res.succeeded = .ok false → ∀ e, res.error = .ok e → e.Instance k

theorem Outcome.failsAs_of_succeeded {res : Outcome ω} (h : res.succeeded = .ok true) :
    res.FailsAs k := fun h' => by simp [h] at h'

theorem Outcome.failsAs_err {e pos : Value ω} (h : e.Instance k) : (err e pos).FailsAs k := by
  rintro - e' he
  obtain rfl : e = e' := by simpa using he
  exact h

/-! ## The kinds of two parts -/

namespace Registry

/-- What is of the kind `k` can stand where `t` is declared. -/
def Leads (r : Registry ω) (k t : Kind) : Prop :=
  k.isInfallible = true ∨ k.isA t = true ∨ (r.find? k t).isSome = true

variable {r r' : Registry ω}

theorem leads_of_canConvert (hr : r.Within r') (hl : l ≠ .object)
    (h : r.canConvert (.kind k) (.kind l) = .ok true) : r'.Leads k l := by
  simp only [canConvert_kind, hl, decide_false, Bool.false_or, Except.ok.injEq, Bool.or_eq_true,
    or_assoc] at h
  rcases h with h | h | h
  · exact .inr (.inl h)
  · exact .inl h
  · exact .inr (.inr (find?_isSome_of_isA hr k.isA_refl h))

/-- Two kinds that join lead to the kind they have together. -/
theorem Joins.leads (hr : r.Within r') (hk : k ≠ .object) (hl : l ≠ .object)
    (h : r.Joins (.kind k) (.kind l)) :
    ∃ m, joined (.kind k) (.kind l) = (.kind m : Declared ω) ∧ m ≠ .object ∧ r'.Leads k m ∧
      r'.Leads l m := by
  obtain ⟨_, ⟨⟩, h⟩ := h
  rcases hi : k.isInfallible with _ | _
  · refine ⟨k, by simp [joined, Declared.isInfallible, hi], hk, .inr (.inl k.isA_refl), ?_⟩
    rcases h with h | h | h
    · simp [hi] at h
    · exact absurd (by simpa [Declared.isUndeclared] using h) hl
    · exact leads_of_canConvert hr hk h
  · exact ⟨l, by simp [joined, Declared.isInfallible, hi], hl, .inl hi, .inr (.inl l.isA_refl)⟩

end Registry

/-- Every conversion returns an instance of its target. -/
def ConversionsKeep (cb : Callbacks ω σ) (c : Context ω) : Prop :=
  ∀ (e : Value ω) (t : Kind) (conv : Conversion ω), e.kindOf.isInfallible = false →
    c.registry.find? e.kindOf t = some conv →
      (Conversion.apply cb (.kind t) e conv).Ensures c (·.Instance t) Value.Lawful

namespace Parser

variable {p q r : Parser ω} {f : ω}

theorem ensures_coerce (hc : ConversionsKeep cb c) {e : Value ω} (he : e.Instance k)
    (hm : m ≠ .object) (hl : c.registry.Leads k m) :
    (Conversion.coerce cb e (.kind m)).Ensures c (·.Instance m) Value.Lawful := by
  by_cases ha : (Declared.kind m : Declared ω).Admits e
  · rw [Conversion.coerce_of_admits ha]
    exact .pure ⟨(Declared.admits_kind.1 ha).resolve_left hm, he.fallible⟩
  · have hs : (c.registry.find? e.kindOf m).isSome = true := by
      rcases hl with h | h | h
      · simp [he.not_infallible] at h
      · exact absurd (Declared.admits_kind.2 (.inr (he.trans h).isA)) ha
      · exact Registry.find?_isSome_of_isA (.refl _) he.isA h
    obtain ⟨conv, hf⟩ := Option.isSome_iff_exists.1 hs
    exact Conversion.ensures_coerce_of_find? ha hf (hc e m conv he.fallible hf)

theorem ensures_retarget (hc : ConversionsKeep cb c) (hm : m ≠ .object)
    (hl : c.registry.Leads k m) {name : String} {res : Outcome ω} (h : res.FailsAs k)
    (hs : res.succeeded = .ok false) :
    (retarget cb name (.kind k) (.kind m) res).Ensures c (Outcome.FailsAs m) Value.Lawful := by
  have hmild := res.toValue.mild_get .error
  rcases he : res.error with g | e
  · have hg : (retarget cb name (.kind k) (.kind m) res : Action ω σ _) = Action.fault g := by
      unfold retarget
      simp only [Declared.kind?, he, Action.monadLift_ok, pure_bind]
      split <;> rfl
    rw [hg]
    exact .fault (lenient_lawful g (hmild g he))
  · have hI := h hs e he
    rw [retarget_of_fallible hI.not_infallible he]
    refine .bind (ensures_coerce hc hI hm hl) fun v hv => ?_
    refine .bind (.ask lenient_lawful (res.toValue.mild_get .pos) fun _ _ => trivial) ?_
    exact fun pos (_ : True) => .pure (Outcome.failsAs_err hv)

/-- A parser that fails only with instances of the kind it declares. -/
structure Honest (cb : Callbacks ω σ) (c : Context ω) (p : Parser ω) (k : Kind) : Prop where
  declares : p.declares = .kind k
  declared : k ≠ .object
  ensures : (p.run cb).Ensures c (Outcome.FailsAs k) Value.Lawful

namespace Honest

variable {d : Declared ω}

theorem seq {r₀ : Registry ω} (hc : ConversionsKeep cb c) (hr : r₀.Within c.registry)
    (hp : Honest cb c p k) (hq : Honest cb c q l) (hj : r₀.Joins p.declares q.declares) :
    ∃ m, Honest cb c (seq p q) m := by
  rw [hp.declares, hq.declares] at hj
  obtain ⟨m, hd, hm, hkm, hlm⟩ := hj.leads hr hp.declared hq.declared
  have hs : (Parser.seq p q).declares = .kind m := by rw [Parser.declares, hp.declares, hq.declares, hd]
  refine ⟨m, hs, hm, ensures_seq lenient_lawful (fun _ => Outcome.failsAs_of_succeeded)
    hp.ensures hq.ensures ?_ ?_⟩ <;> intro res hres hf <;> rw [hs]
  · rw [hp.declares]
    exact ensures_retarget hc hm hkm hres hf
  · rw [hq.declares]
    exact ensures_retarget hc hm hlm hres hf

theorem alt {r₀ : Registry ω} (hc : ConversionsKeep cb c) (hr : r₀.Within c.registry)
    (hp : Honest cb c p k) (hq : Honest cb c q l) (hj : r₀.Joins p.declares q.declares) :
    ∃ m, Honest cb c (alt p q) m := by
  rw [hp.declares, hq.declares] at hj
  obtain ⟨m, hd, hm, -, hlm⟩ := hj.leads hr hp.declared hq.declared
  have hs : (Parser.alt p q).declares = .kind m := by rw [Parser.declares, hp.declares, hq.declares, hd]
  refine ⟨m, hs, hm, ensures_alt lenient_lawful (fun _ => Outcome.failsAs_of_succeeded)
    hp.ensures hq.ensures fun res hres hf => ?_⟩
  rw [hs, hq.declares]
  exact ensures_retarget hc hm hlm hres hf

theorem foldl_alt {r₀ : Registry ω} (hc : ConversionsKeep cb c) (hr : r₀.Within c.registry)
    {ps : List (Parser ω)} (hp : Honest cb c p k) (hps : ∀ q ∈ ps, ∃ l, Honest cb c q l)
    (hj : JoinsAll r₀ p ps) : ∃ m, Honest cb c (ps.foldl Parser.alt p) m := by
  induction ps generalizing p k with
  | nil => exact ⟨k, hp⟩
  | cons q qs ih =>
    obtain ⟨l, hq⟩ := hps q (List.mem_cons_self ..)
    obtain ⟨m, hm⟩ := alt hc hr hp hq hj.1
    exact ih hm (fun q' h => hps q' (List.mem_cons_of_mem _ h)) hj.2

theorem convert {r₀ : Registry ω} (hc : ConversionsKeep cb c) (hr : r₀.Within c.registry)
    (hp : Honest cb c p k) (hm : m ≠ .object) (h : p.declares.isUndeclared = true ∨
      r₀.canConvert p.declares (.kind m) = .ok true) :
    Honest cb c (convert p (.kind m)) m := by
  rw [hp.declares] at h
  have hkm : c.registry.Leads k m :=
    Registry.leads_of_canConvert hr hm (h.resolve_left (by simp [Declared.isUndeclared, hp.declared]))
  refine ⟨rfl, hm, ensures_convert lenient_lawful (fun _ => Outcome.failsAs_of_succeeded)
    hp.ensures fun res hres hf => ?_⟩
  rw [hp.declares]
  exact ensures_retarget hc hm hkm hres hf

end Honest

/-- What a function that may fail with errors of the kind `k` returns: as a failure only an instance
of that kind, and as a success what counts as one. -/
structure Kept (k : Kind) (w : Value ω) : Prop where
  failure : w.isA .err = true → ∀ e, w.get .error = .ok e → e.Instance k
  success : w.isA .err = false → w.isA .ok = true → (Outcome.ofValue w).succeeded ≠ .ok false

theorem ensures_refined (hc : ConversionsKeep cb c) (hm : m ≠ .object)
    (hl : c.registry.Leads k m) {w : Value ω} (hw : Kept k w) :
    (refined cb (.kind m) w).Ensures c (Outcome.FailsAs m) Value.Lawful := by
  unfold refined
  split
  · next herr =>
    refine .bind (P := fun e => e.Instance k)
      (.ask lenient_lawful (w.mild_get .error) (hw.failure herr)) fun e he => ?_
    refine .bind (ensures_coerce hc he hm hl) fun v hv => ?_
    refine .bind (.ask lenient_lawful (w.mild_get .pos) fun _ _ => trivial) fun pos (_ : True) => ?_
    split
    · exact .bind .save fun m _ => .pure (Outcome.failsAs_err hv)
    · exact .pure (Outcome.failsAs_err hv)
  · next herr =>
    split
    · next hok =>
      exact .pure fun h => absurd h (hw.success (by simpa using herr) hok)
    · exact .pure (Outcome.failsAs_of_succeeded rfl)

theorem Honest.refine {r₀ : Registry ω} (hc : ConversionsKeep cb c) (hr : r₀.Within c.registry)
    (hp : Honest cb c p k) (hl : l ≠ .object)
    (hf : ∀ v, (cb.call f v).Ensures c (Kept l) (·.Instance l))
    (hj : r₀.Joins p.declares (.kind l)) : ∃ m, Honest cb c (refine p f (.kind l)) m := by
  rw [hp.declares] at hj
  obtain ⟨m, hd, hm, hkm, hlm⟩ := hj.leads hr hp.declared hl
  have hs : (Parser.refine p f (.kind l)).declares = .kind m := by rw [Parser.declares, hp.declares, hd]
  -- what is raised where the function is called: also a mild fault, when the value is asked for
  let S (e : Value ω) : Prop := e.Instance l ∨ e.Lawful ∧ e.kindOf.isInfallible = false
  have hS : Lenient S := fun g hg => .inr ⟨lenient_lawful g hg, g.fallible_of_isMild hg⟩
  refine ⟨m, hs, hm, ensures_refine lenient_lawful hS hp.ensures
    (fun v => (hf v).mono (fun _ h => h) fun _ h => .inl h) ?_ ?_ ?_ ?_⟩
  · rintro e (he | he) hcatch
    · intro hb
      have ha : e.kindOf.isA l = true := he.isA
      simp [Declared.catches, hb.isException he.isA hl, ha] at hcatch
    · exact he.1
  · intro e he hcatch
    have hI : e.Instance l := by
      rcases he with he | he
      · exact he
      · simp only [Declared.catches, Bool.and_eq_true] at hcatch
        exact ⟨hcatch.2, he.2⟩
    rw [hs]
    exact (ensures_coerce hc hI hm hlm).mono (fun v hv _ => Outcome.failsAs_err hv) fun _ h => h
  · rw [hs]
    exact fun w hw => ensures_refined hc hm hlm hw
  · intro res hres hfail
    rw [hs, hp.declares]
    exact ensures_retarget hc hm hkm hres hfail

/-- The parsers that hand a failure of their part on as it is. -/
theorem Honest.pass (hp : Honest cb c p k) (hd : q.declares = p.declares)
    (hq : (q.run cb).Ensures c (Outcome.FailsAs k) Value.Lawful) : Honest cb c q k :=
  ⟨hd.trans hp.declares, hp.declared, hq⟩

theorem Honest.map {g : Mapping ω} (hp : Honest cb c p k)
    (hg : ∀ v, (g.apply cb v).Ensures c (fun _ => True) Value.Lawful) :
    Honest cb c (map p g) k :=
  hp.pass rfl (ensures_map lenient_lawful (fun _ => Outcome.failsAs_of_succeeded) hp.ensures hg
    fun _ h _ => h)

/-- The mappings that call no function. -/
theorem ensures_apply {g : Mapping ω} (hg : ∀ f, g ≠ .function f) (v : Value ω) :
    (g.apply cb v).Ensures c (fun _ => True) Value.Lawful := by
  unfold Mapping.apply
  split
  any_goals exact .pure trivial
  exact absurd rfl (hg _)

/-- A parser that does not fail may declare any kind that parsers declare. -/
theorem honest_of_succeeds (hd : q.declares = .kind k) (hk : k ≠ .object)
    (hq : (q.run cb).Ensures c (fun res => res.succeeded = .ok true) Value.Lawful) :
    Honest cb c q k :=
  ⟨hd, hk, hq.mono (fun _ h => Outcome.failsAs_of_succeeded h) fun _ h => h⟩

theorem lawful_notAdvancing (pos : String) :
    ((Fault.notAdvancing pos).exception : Value ω).Lawful :=
  Fault.lawful (show Kind.nonAdvancingParser ≠ .conversionError by decide)
    (show Kind.nonAdvancingParser ≠ .infallibleViolation by decide)

/-- A parser that always fails with the same error. -/
theorem honest_fail {e : Value ω} (he : e.kindOf = k) (hk : k ≠ .object)
    (hi : k.isInfallible = false) : Honest cb c (fail e) k := by
  have hI : e.Instance k := ⟨he ▸ e.kindOf.isA_refl, he ▸ hi⟩
  refine ⟨congrArg _ he, hk, ?_⟩
  rw [run]
  exact .bind .save fun m _ => .pure (Outcome.failsAs_err hI)

/-- A sequence whose pair of values is mapped. -/
theorem Honest.mapped {r₀ : Registry ω} {g : Mapping ω} (hc : ConversionsKeep cb c)
    (hr : r₀.Within c.registry) (hp : Honest cb c p k) (hq : Honest cb c q l)
    (hj : r₀.Joins p.declares q.declares) (hg : ∀ f, g ≠ .function f) :
    ∃ m, Honest cb c (Parser.map (Parser.seq p q) g) m := by
  obtain ⟨m, hm⟩ := hp.seq hc hr hq hj
  exact ⟨m, hm.map (ensures_apply hg)⟩

theorem Honest.many (hp : Honest cb c p k) : Honest cb c (many p) .infallible :=
  honest_of_succeeds rfl (by decide)
    (ensures_many lenient_lawful (fun _ h => h) lawful_notAdvancing hp.ensures)

/-- A choice among honest parsers is honest. -/
theorem honest_choice {c₀ : Context ω} {s t : State ω σ} (hc : ConversionsKeep cb c)
    (hr : c₀.registry.Within c.registry) {os : List (Operand ω)}
    (hos : ∀ o ∈ os, ∀ p, o.toParser none = .ok p → ∃ k, Honest cb c p k)
    (h : mkChoice os c₀ s = (.returned r, t)) : ∃ k, Honest cb c r k := by
  rcases os with _ | ⟨o, os⟩
  · obtain ⟨rfl, -⟩ : fail noAlternatives = r ∧ s = t := by simpa [mkChoice] using h
    exact ⟨.noAlternatives, honest_fail rfl (by decide) (by decide)⟩
  · obtain ⟨p, ps, ho, hps, hj, rfl, -⟩ := mkChoice_returned.1 h
    obtain ⟨k, hp⟩ := hos o (List.mem_cons_self ..) p ho
    refine hp.foldl_alt hc hr (fun q hq => ?_) hj
    obtain ⟨o', ho', hq⟩ := hps.mem hq
    exact hos o' (List.mem_cons_of_mem _ ho') q hq

end Parser

end ParserAlgebra
