import ParserAlgebra.Proofs.AssignmentParts

/-!
# Well-typed compositions do not go wrong

When honest parsers are put together each combinator checks that conversions are declared between
kinds; what occurs during a run are errors of other kinds, that inherit from those. The check is
enough all the same: a composition of honest parsers is honest (`Parser.WellTyped.honest`), so no
run of it meets an error without a conversion or a failure of what was declared infallible
(`Parser.WellTyped.safe`).
-/

namespace ParserAlgebra

variable {ω σ : Type} [HostObject ω] {cb : Callbacks ω σ} {c : Context ω}

namespace Parser

variable {p : Parser ω}

/-- The parser was returned by `x` when at most the present conversions were declared. -/
def Builds (c : Context ω) (x : Action ω σ (Parser ω)) (r : Parser ω) : Prop :=
  ∃ (c₀ : Context ω) (s t : State ω σ), c₀.registry.Within c.registry ∧
    x c₀ s = (.returned r, t)

/-- The parsers that are composed of honest ones. -/
inductive WellTyped (cb : Callbacks ω σ) (c : Context ω) : Parser ω → Prop
  | leaf {p : Parser ω} {k : Kind} (hp : Honest cb c p k) : WellTyped cb c p
  | seq {p q r : Parser ω} (hp : WellTyped cb c p) (hq : WellTyped cb c q)
      (h : Builds (σ := σ) c (mkSeq p q) r) : WellTyped cb c r
  | after {p q r : Parser ω} (hp : WellTyped cb c p) (hq : WellTyped cb c q)
      (h : Builds (σ := σ) c (mkAfter p q) r) : WellTyped cb c r
  | before {p q r : Parser ω} (hp : WellTyped cb c p) (hq : WellTyped cb c q)
      (h : Builds (σ := σ) c (mkBefore p q) r) : WellTyped cb c r
  | alt {p q r : Parser ω} (hp : WellTyped cb c p) (hq : WellTyped cb c q)
      (h : Builds (σ := σ) c (mkAlt p q) r) : WellTyped cb c r
  | choice {os : List (Operand ω)} {r : Parser ω}
      (hos : ∀ o ∈ os, ∀ p, o.toParser none = .ok p → WellTyped cb c p)
      (h : Builds (σ := σ) c (mkChoice os) r) : WellTyped cb c r
  | refine {p r : Parser ω} {f : ω} {k : Kind} (hp : WellTyped cb c p) (hk : k ≠ .object)
      (hf : ∀ v, (cb.call f v).Ensures c (Kept k) (·.Instance k))
      (h : Builds (σ := σ) c (mkRefine p f (.kind k)) r) : WellTyped cb c r
  | convert {p r : Parser ω} {k : Kind} (hp : WellTyped cb c p) (hk : k ≠ .object)
      (h : Builds (σ := σ) c (mkConvert p (.kind k)) r) : WellTyped cb c r
  | map {p : Parser ω} {f : Mapping ω} (hp : WellTyped cb c p)
      (hf : ∀ v, (f.apply cb v).Ensures c (fun _ => True) Value.Lawful) : WellTyped cb c (map p f)
  | rewind {p : Parser ω} (hp : WellTyped cb c p) : WellTyped cb c (rewind p)
  | many {p : Parser ω} (hp : WellTyped cb c p) : WellTyped cb c (many p)
  | many1 {p r : Parser ω} (hp : WellTyped cb c p) (h : Builds (σ := σ) c (mkMany1 p) r) :
      WellTyped cb c r
  | sepBy {p q : Parser ω} (hp : WellTyped cb c p) (hq : WellTyped cb c q) :
      WellTyped cb c (sepBy p q)
  | sepBy1 {p q : Parser ω} (hp : WellTyped cb c p) (hq : WellTyped cb c q) :
      WellTyped cb c (sepBy1 p q)
  | option {p : Parser ω} (default : Value ω) (hp : WellTyped cb c p) :
      WellTyped cb c (option default p)
  | traced {p : Parser ω} (label : String) (hp : WellTyped cb c p) :
      WellTyped cb c (traced label p)

/-- A composition of honest parsers is honest. -/
theorem WellTyped.honest (hc : ConversionsKeep cb c) (h : WellTyped cb c p) :
    ∃ k, Honest cb c p k := by
  have hok {k : Kind} (res : Outcome ω) : res.succeeded = .ok true → res.FailsAs k :=
    Outcome.failsAs_of_succeeded
  induction h with
  | leaf hp => exact ⟨_, hp⟩
  | seq _ _ h ihp ihq =>
    obtain ⟨k, hp⟩ := ihp
    obtain ⟨l, hq⟩ := ihq
    obtain ⟨c₀, s, t, hr, h⟩ := h
    obtain ⟨rfl, hj, -⟩ := mkSeq_returned.1 h
    exact hp.seq hc hr hq hj
  | after _ _ h ihp ihq =>
    obtain ⟨k, hp⟩ := ihp
    obtain ⟨l, hq⟩ := ihq
    obtain ⟨c₀, s, t, hr, h⟩ := h
    obtain ⟨rfl, hj, -⟩ := mkAfter_returned.1 h
    exact hp.mapped hc hr hq hj (by simp)
  | before _ _ h ihp ihq =>
    obtain ⟨k, hp⟩ := ihp
    obtain ⟨l, hq⟩ := ihq
    obtain ⟨c₀, s, t, hr, h⟩ := h
    obtain ⟨rfl, hj, -⟩ := mkBefore_returned.1 h
    exact hp.mapped hc hr hq hj (by simp)
  | alt _ _ h ihp ihq =>
    obtain ⟨k, hp⟩ := ihp
    obtain ⟨l, hq⟩ := ihq
    obtain ⟨c₀, s, t, hr, h⟩ := h
    obtain ⟨rfl, hj, -⟩ := mkAlt_returned.1 h
    exact hp.alt hc hr hq hj
  | choice _ h ih =>
    obtain ⟨c₀, s, t, hr, h⟩ := h
    exact honest_choice hc hr ih h
  | refine _ hk hf h ihp =>
    obtain ⟨k, hp⟩ := ihp
    obtain ⟨c₀, s, t, hr, h⟩ := h
    obtain ⟨rfl, hj, -⟩ := mkRefine_returned.1 h
    exact hp.refine hc hr hk hf hj
  | convert _ hk h ihp =>
    obtain ⟨k, hp⟩ := ihp
    obtain ⟨c₀, s, t, hr, h⟩ := h
    obtain ⟨rfl, hj, -⟩ := mkConvert_returned.1 h
    exact ⟨_, hp.convert hc hr hk hj⟩
  | map _ hf ihp =>
    obtain ⟨k, hp⟩ := ihp
    exact ⟨k, hp.map hf⟩
  | rewind _ ihp =>
    obtain ⟨k, hp⟩ := ihp
    exact ⟨k, hp.pass rfl (ensures_rewind lenient_lawful hok hp.ensures fun _ h _ => h)⟩
  | many _ ihp =>
    obtain ⟨k, hp⟩ := ihp
    exact ⟨_, hp.many⟩
  | many1 _ h ihp =>
    obtain ⟨k, hp⟩ := ihp
    obtain ⟨c₀, s, t, hr, h⟩ := h
    obtain ⟨rfl, hj, -⟩ := mkMany1_returned.1 h
    exact hp.mapped hc hr hp.many hj (by simp)
  | sepBy _ _ ihp ihq =>
    obtain ⟨k, hp⟩ := ihp
    obtain ⟨l, hq⟩ := ihq
    exact ⟨_, honest_of_succeeds rfl (by decide) (ensures_sepBy lenient_lawful (fun _ h => h)
      lawful_notAdvancing hp.ensures hq.ensures)⟩
  | sepBy1 _ _ ihp ihq =>
    obtain ⟨k, hp⟩ := ihp
    obtain ⟨l, hq⟩ := ihq
    exact ⟨k, hp.pass rfl (ensures_sepBy1 lenient_lawful hok lawful_notAdvancing hp.ensures
      hq.ensures fun _ h _ => h)⟩
  | option d _ ihp =>
    obtain ⟨k, hp⟩ := ihp
    exact ⟨_, honest_of_succeeds rfl (by decide)
      (ensures_option lenient_lawful (fun _ h => h) hp.ensures)⟩
  | traced label _ ihp =>
    obtain ⟨k, hp⟩ := ihp
    exact ⟨k, hp.pass rfl (ensures_traced lenient_lawful hok hp.ensures fun _ h _ => h)⟩

/-- The parser of an assigned number is well-typed: its word may fail, and so may its number. -/
theorem wellTyped_valuePart {rounds depth : Nat} {settings : Settings Assignment.Function}
    {threshold : Level} : WellTyped (Assignment.host.callbacks rounds depth)
      ⟨Assignment.registry, settings, threshold⟩ Assignment.valuePart := by
  have s : State Assignment.Function Unit := ⟨.ofList [], [], ()⟩
  have hi : Kind.infallible.isInfallible = true := by decide
  have hw : WellTyped (Assignment.host.callbacks rounds depth)
      ⟨Assignment.registry, settings, threshold⟩ Assignment.wordPart :=
    .convert (.leaf honest_word) (by decide)
      ⟨_, s, s, .refl _, Assignment.mkConvert_word (c := ⟨_, settings, threshold⟩) rfl⟩
  refine .after (.refine hw (by decide) Assignment.ensures_number ⟨⟨_, settings, threshold⟩, s, s,
    .refl _, mkRefine_returned.2 ⟨rfl, Assignment.joins_failed rfl (.inr (by decide)), rfl⟩⟩)
    (.leaf honest_whitespace) ⟨⟨_, settings, threshold⟩, s, s, .refl _, ?_⟩
  exact mkAfter_returned.2 ⟨rfl, Assignment.joins_failed rfl (.inl hi), rfl⟩

end Parser

end ParserAlgebra
