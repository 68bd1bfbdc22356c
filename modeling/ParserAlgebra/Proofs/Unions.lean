import ParserAlgebra.Conversion
import Mathlib.Tactic.Conv

/-!
# What a union keeps

A union is made of the error that it wraps and has it as its cause, whatever the error is
(`Conversion.cause_of_wrap`). Only a kind that inherits from another exception before the union
makes its objects in another way, and need not have a cause.
-/

namespace ParserAlgebra

variable {ω : Type} [HostObject ω] {k : Kind} {e w : Value ω}

/-- Nothing that comes before the union in the lineage makes the objects in a way of its own. -/
def Kind.IsUnion (k : Kind) : Prop := k.lineage.find? Value.preparing.contains = some .errorUnion

instance (k : Kind) : Decidable k.IsUnion := inferInstanceAs (Decidable (_ = _))

namespace Value

theorem fixes_cause (k : Kind) : fixes k .cause = false := by
  unfold fixes
  rw [List.any_eq_false]
  intro b _
  by_cases hok : b = .ok
  · subst hok
    decide
  · by_cases herr : b = .err
    · subst herr
      decide
    · have hb : (b == .ok) = false ∧ (b == .err) = false := by simp [hok, herr]
      simp [fixedAttributes, List.lookup_cons, hb]

/-- What prepares nothing hands the arguments on. -/
theorem prepare_cons {made : Kind} {rest : List Kind} {args : List (Value ω)} {d : Draft ω}
    (h : preparing.contains k = false) :
    prepare made (k :: rest) args d = prepare made rest args d := by
  simp only [preparing, List.contains_eq_mem, List.mem_append, List.mem_cons, List.not_mem_nil,
    not_or, decide_eq_false_iff_not] at h
  obtain ⟨hn, h⟩ := h
  conv_lhs => unfold prepare
  simp [hn, h]

theorem cause_of_prepare {made : Kind} {l : List Kind} {d d' : Draft ω}
    (hl : l.find? preparing.contains = some .errorUnion)
    (h : prepare made l [e] d = .ok d') : d'.attributes.get? .cause = some e := by
  induction l with
  | nil => cases hl
  | cons k rest ih =>
    rw [List.find?_cons] at hl
    split at hl
    · obtain rfl := Option.some.inj hl
      have hstep : prepare made (.errorUnion :: rest) [e] d =
          (do (← prepare made rest [e] d).assign made .cause e) := by
        conv_lhs => unfold prepare
        rw [if_neg (by decide), if_pos rfl]
      rw [hstep] at h
      rcases hr : prepare made rest [e] d with f | d₁
      · simp [hr, bind, Except.bind] at h
      · simp [hr, bind, Except.bind, Draft.assign, fixes_cause] at h
        subst h
        simp [Draft.set, Attributes.get?]
    · next hk =>
      rw [prepare_cons (by simpa using hk)] at h
      exact ih hl h

end Value

theorem Kind.IsUnion.ne {l : Kind} (h : k.IsUnion) (hl : ¬ l.IsUnion) : k ≠ l := by
  rintro rfl
  exact hl h

omit [HostObject ω] in
theorem Value.finish_of_isUnion (h : k.IsUnion) (d : Draft ω) :
    finish k d = .object k d.held d.attributes 0 Option.none := by
  have hi : k ≠ .int := h.ne (by decide)
  have hs : k ≠ .str := h.ne (by decide)
  have hl : k ≠ .list := h.ne (by decide)
  have ht : k ≠ .tuple := h.ne (by decide)
  have ho : k ≠ .ok := h.ne (by decide)
  have he : k ≠ .err := h.ne (by decide)
  have hp : k ≠ .span := h.ne (by decide)
  simp [finish, hi, hs, hl, ht, ho, he, hp]

theorem Value.construct_of_isUnion (h : k.IsUnion) (hw : construct k [e] = .ok w) :
    ∃ held attributes, w = .object k held attributes 0 Option.none ∧
      attributes.get? .cause = some e := by
  unfold construct at hw
  rw [if_neg (h.ne (by decide)), if_neg (h.ne (by decide))] at hw
  split at hw
  · cases hw
  · rcases ha : allot k [e] with f | d
    · simp [ha, bind, Except.bind] at hw
    · rcases hp : prepare k k.lineage [e] d with f | d'
      · simp [ha, hp, bind, Except.bind] at hw
      · refine ⟨d'.held, d'.attributes, ?_, cause_of_prepare h hp⟩
        rw [← finish_of_isUnion h d']
        simpa [ha, hp, bind, Except.bind, pure, Except.pure, eq_comm] using hw

/-- A union that is made of an error is of that kind and has the error as its cause. -/
theorem Conversion.cause_of_wrap (h : k.IsUnion) (hw : wrap k e = .ok w) :
    w.kindOf = k ∧ w.get .cause = .ok e := by
  unfold wrap at hw
  rcases hc : Value.construct k [e] with f | x
  · simp [hc, bind, Except.bind] at hw
  · obtain ⟨held, attributes, rfl, hg⟩ := Value.construct_of_isUnion h hc
    obtain ⟨chained, rfl⟩ : ∃ chained, w = .object k held attributes 0 chained := by
      simp only [hc, bind, Except.bind, pure, Except.pure] at hw
      split at hw <;> exact ⟨_, (Except.ok.inj hw).symm⟩
    exact ⟨rfl, by simp [Value.get, Attributes.read, hg]⟩

end ParserAlgebra
