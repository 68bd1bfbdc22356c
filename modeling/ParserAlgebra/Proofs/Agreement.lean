import ParserAlgebra.Proofs.Conversions
import ParserAlgebra.Proofs.Lineage

/-!
# What is checked and what is converted

The check of declared kinds asks whether a conversion can be found for a kind; an error is converted
through the lineage of its own kind, which may be any heir of the declared one. The two agree
(`Conversion.canConvert_agrees`): where the check passes, an error of the declared kind is never
refused, and an error that is not refused is of a kind for which the check passes. An error that is
of the target already is handed back; any other is given to one conversion, the first that its
lineage has.

The lineage is in the order of the merge (`Kind.Derived.merge_eq`).
-/

namespace ParserAlgebra.Conversion

variable {ω σ : Type} [HostObject ω] {cb : Callbacks ω σ} {c : Context ω} {e : Value ω}
  {source target : Kind} {conv : Conversion ω} {s : State ω σ}

/-- The error is refused: an exception is raised for want of a conversion. -/
def Refused (cb : Callbacks ω σ) (c : Context ω) (e : Value ω) (target : Kind)
    (s : State ω σ) : Prop :=
  ∃ t, coerce cb e (.kind target) c s =
    (.raised (Fault.missingConversion e.kindOf.name target.name none).exception, t)

/-- The conversion is the first into the target that the lineage of the kind has. -/
def First (r : Registry ω) (source target : Kind) (conv : Conversion ω) : Prop :=
  ∃ before k after, source.lineage = before ++ k :: after ∧
    (∀ l ∈ before, r.get? l target = none) ∧ r.get? k target = some conv

omit [HostObject ω] in
theorem first_iff_find? {r : Registry ω} :
    First r source target conv ↔ r.find? source target = some conv := by
  unfold First Registry.find?
  rw [List.findSome?_eq_some_iff]
  constructor
  · rintro ⟨before, k, after, hl, hnone, hk⟩
    exact ⟨before, k, after, hl, hk, hnone⟩
  · rintro ⟨before, k, after, hl, hk, hnone⟩
    exact ⟨before, k, after, hl, hnone, hk⟩

theorem refused_of_find?_none (h : ¬ (Declared.kind target : Declared ω).Admits e)
    (hf : c.registry.find? e.kindOf target = none) : Refused cb c e target s :=
  coerce_of_find?_none h hf

/-- For an error that is an heir of a kind that passes the check there is a conversion, unless it is
of the target already. -/
theorem find?_isSome_of_canConvert (hs : source.isInfallible = false)
    (h : c.registry.canConvert (.kind source) (.kind target) = .ok true)
    (he : e.isA source = true) (ha : ¬ (Declared.kind target : Declared ω).Admits e) :
    (c.registry.find? e.kindOf target).isSome = true := by
  simp only [Declared.admits_kind, not_or] at ha
  simp only [Registry.canConvert_kind, hs, ha.1, decide_false, Bool.false_or, Bool.or_false,
    Except.ok.injEq, Bool.or_eq_true] at h
  rcases h with hsub | hfind
  · exact absurd (Kind.isA_trans he hsub) ha.2
  · exact Registry.find?_isSome_of_isA (.refl _) he hfind

/-- The check of declared kinds and the conversion of errors, for the conversions of a context. -/
structure Agree (cb : Callbacks ω σ) (c : Context ω) : Prop where
  /-- Whatever is raised for an error that passed the check is raised by a declared conversion. -/
  accepted : ∀ source target : Kind, source.isInfallible = false →
    c.registry.canConvert (.kind source) (.kind target) = .ok true →
      ∀ (e : Value ω) (s t : State ω σ) (x : Value ω), e.isA source = true →
        coerce cb e (.kind target) c s = (.raised x, t) →
          ∃ conv, First c.registry e.kindOf target conv ∧
            apply cb (.kind target) e conv c s = (.raised x, t)
  checked : ∀ (e : Value ω) (target : Kind) (s : State ω σ), ¬ Refused cb c e target s →
    c.registry.canConvert (.kind e.kindOf) (.kind target) = .ok true
  kept : ∀ (e : Value ω) (target : Kind) (s : State ω σ),
    target = .object ∨ e.isA target = true →
      coerce cb e (.kind target) c s = (.returned e, s)
  converted : ∀ (e : Value ω) (target : Kind) (s : State ω σ) (conv : Conversion ω),
    target ≠ .object → e.isA target = false → First c.registry e.kindOf target conv →
      coerce cb e (.kind target) c s = apply cb (.kind target) e conv c s
  refused : ∀ (e : Value ω) (target : Kind) (s : State ω σ), target ≠ .object →
    e.isA target = false → (∀ k ∈ e.kindOf.lineage, c.registry.get? k target = none) →
      Refused cb c e target s
  /-- A lineage is searched in the order of the merge. -/
  ordered : ∀ k : Kind, k.Derived →
    ∃ m, Kind.merge (k.bases.map Kind.lineage ++ [k.bases]) = some m ∧ k.lineage = k :: m

/-- The check and the conversion agree, whatever the kinds and the conversions are. -/
theorem canConvert_agrees (cb : Callbacks ω σ) (c : Context ω) : Agree cb c where
  accepted source target hs hcan e s t x he hrun := by
    by_cases ha : (Declared.kind target : Declared ω).Admits e
    · simp [coerce_of_admits ha] at hrun
    · have hsome := find?_isSome_of_canConvert hs hcan he ha
      obtain ⟨conv, hf⟩ := Option.isSome_iff_exists.1 hsome
      exact ⟨conv, first_iff_find?.2 hf, (coerce_of_find? ha hf).symm.trans hrun⟩
  checked e target s hrefused := by
    rw [Registry.canConvert_kind]
    by_cases ha : (Declared.kind target : Declared ω).Admits e
    · rcases Declared.admits_kind.1 ha with rfl | ha
      · simp
      · have hA : e.kindOf.isA target = true := ha
        simp [hA]
    · rcases hf : c.registry.find? e.kindOf target with _ | conv
      · exact absurd (refused_of_find?_none ha hf) hrefused
      · simp
  kept e target s h := by
    rw [coerce_of_admits (Declared.admits_kind.2 h)]
    rfl
  converted e target s conv ho hA hfirst := by
    refine coerce_of_find? (fun ha => ?_) (first_iff_find?.1 hfirst)
    rcases Declared.admits_kind.1 ha with h | h
    · exact ho h
    · simp [hA] at h
  refused e target s ho hA hnone := by
    refine refused_of_find?_none (fun ha => ?_) (List.findSome?_eq_none_iff.2 hnone)
    rcases Declared.admits_kind.1 ha with h | h
    · exact ho h
    · simp [hA] at h
  ordered _ h := h.merge_eq

end ParserAlgebra.Conversion
