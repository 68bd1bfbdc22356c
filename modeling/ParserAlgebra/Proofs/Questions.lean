import ParserAlgebra.Parser.Run

/-!
# Questions about values

Whether a value counts as true, what its attributes are, how it is shown and what it is equal to
are questions that may have no answer. Then the fault is a *mild* one: an attribute is missing, a
value is misused, or a number has too many digits (`Value.mild_truthy`, `Value.mild_get`,
`Value.mild_shown?`, `Value.mild_text?`, `Value.mild_equal`). So a combinator that asks them raises
none of the faults by which the engine reports its own misuse.
-/

namespace ParserAlgebra

variable {ω : Type}

/-- The faults that a question about a value can come to. -/
def Fault.isMild : Fault → Bool
  | noAttribute .. | misused _ | tooManyDigits => true
  | _ => false

theorem Fault.kind_of_isMild {f : Fault} (h : f.isMild = true) :
    f.kind ∈ [Kind.attributeError, Kind.typeError, Kind.valueError] := by
  cases f <;> simp [isMild] at h <;> simp [kind]

theorem Fault.fallible_of_isMild {f : Fault} (h : f.isMild = true) :
    f.kind.isInfallible = false := by
  have hk := f.kind_of_isMild h
  generalize f.kind = k at hk
  revert k
  decide

/-- If there is no answer, the fault is a mild one. -/
def Mild {α : Type} (x : Except Fault α) : Prop := ∀ f, x = .error f → f.isMild = true

section Mild

variable {α β : Type}

@[simp] theorem mild_ok (a : α) : Mild (.ok a : Except Fault α) := fun _ h => by cases h

@[simp] theorem mild_pure (a : α) : Mild (pure a : Except Fault α) := mild_ok a

@[simp] theorem mild_error {f : Fault} : Mild (.error f : Except Fault α) ↔ f.isMild = true :=
  ⟨fun h => h f rfl, fun h g hg => by cases hg; exact h⟩

theorem mild_bind {x : Except Fault α} {g : α → Except Fault β} (hx : Mild x)
    (hg : ∀ a, Mild (g a)) : Mild (x >>= g) := by
  rcases x with f | a
  · exact mild_error.2 (mild_error.1 hx)
  · exact hg a

theorem mild_map {x : Except Fault α} {g : α → β} (hx : Mild x) : Mild (x.map g) := by
  rcases x with f | a
  · exact mild_error.2 (mild_error.1 hx)
  · exact mild_ok _

end Mild

variable [HostObject ω]

theorem mild_unset (k : Kind) (as : Attributes ω) (a : Attribute) : Mild (as.unset k a) := by
  unfold Attributes.unset
  cases a
  case pos => dsimp only; split <;> simp [Fault.isMild]
  case text => dsimp only; split <;> simp [Fault.isMild]
  all_goals simp [Fault.isMild]

theorem mild_digits? (n : Int) : Mild (digits? n) := by
  unfold digits?; split <;> simp [Fault.isMild]

theorem mild_read (k : Kind) (as : Attributes ω) (a : Attribute) : Mild (as.read k a) := by
  unfold Attributes.read
  split
  · simp
  · exact mild_unset _ _ _

namespace Value

theorem mild_get (v : Value ω) (a : Attribute) : Mild (v.get a) := by
  unfold get
  split
  case h_7 => exact mild_read _ _ _
  case h_8 => exact mild_error.2 rfl
  all_goals exact mild_ok _

theorem mild_bound (k : Kind) (as : Attributes ω) (a : Attribute) : Mild (bound k as a) := by
  unfold bound
  exact mild_map (mild_read _ _ _)

theorem mild_truthy : (v : Value ω) → Mild v.truthy
  | none | bool _ | int _ | str _ | list _ | tuple _ | span _ | mismatch _ | kind _ | ok _
  | err _ _ | host _ => by simp [truthy]
  | object k held as m ch => by
    rw [truthy]
    split
    · exact mild_truthy held
    · exact mild_bind (mild_bound _ _ _) fun _ => mild_bind (mild_bound _ _ _) fun _ => mild_ok _
    · simp
    · simp

mutual
theorem mild_shown? : (v : Value ω) → Mild v.shown?
  | none | bool _ | str _ | span _ | mismatch _ | kind _ | host _ => by simp [shown?]
  | int n => by rw [shown?]; exact mild_digits? n
  | list vs => by rw [shown?]; exact mild_bind (mild_shownAll? vs) fun _ => mild_ok _
  | tuple vs => by rw [shown?]; exact mild_bind (mild_shownAll? vs) fun _ => mild_ok _
  | ok v => by rw [shown?]; exact mild_bind (mild_shown? v) fun _ => mild_ok _
  | err e p => by
    rw [shown?]
    exact mild_bind (mild_shown? e) fun _ => mild_bind (mild_shown? p) fun _ => mild_ok _
  | object k held as m ch => by
    have at? (a : Attribute) : Mild (shownAt? a ((as.unset k a).map fun _ => "None") as) :=
      mild_shownAt? a (mild_map (mild_unset k as a)) as
    rw [shown?]
    split
    · exact mild_shown? held
    · exact mild_bind (at? _) fun _ => mild_bind (at? _) fun _ => mild_bind (at? _) fun _ =>
        mild_ok _
    · exact mild_bind (at? _) fun _ => mild_ok _
    · exact mild_bind (at? _) fun _ => mild_bind (at? _) fun _ => mild_ok _
    · exact mild_bind (at? _) fun _ => mild_ok _
    · exact mild_bind (at? _) fun _ => mild_ok _
    · exact mild_bind (mild_shownArguments? as) fun _ => mild_ok _
    · simp
theorem mild_shownAll? : (vs : List (Value ω)) → Mild (shownAll? vs)
  | [] => by simp [shownAll?]
  | v :: vs => by
    rw [shownAll?]
    exact mild_bind (mild_shown? v) fun _ => mild_bind (mild_shownAll? vs) fun _ => mild_ok _
theorem mild_shownAt? (a : Attribute) {unset : Except Fault String} (hu : Mild unset) :
    (as : Attributes ω) → Mild (shownAt? a unset as)
  | .nil => by rw [shownAt?]; exact hu
  | .cons b v rest => by
    rw [shownAt?]
    split
    · exact mild_shown? v
    · exact mild_shownAt? a hu rest
theorem mild_shownArguments? : (as : Attributes ω) → Mild (shownArguments? as)
  | .nil => by simp [shownArguments?]
  | .cons a v rest => by
    unfold shownArguments?
    split
    · split
      · next items => exact mild_shownAll? items
      · simp
    · exact mild_shownArguments? rest
end

mutual
theorem mild_text? : (v : Value ω) → Mild v.text?
  | none | bool _ | int _ | list _ | tuple _ | kind _ | ok _ | err _ _ => by
    rw [text?] <;> first | exact mild_shown? _ | simp
  | str _ | span _ | mismatch _ | host _ => by simp [text?]
  | object k held as m ch => by
    have at? (a : Attribute) : Mild (shownAt? a ((as.unset k a).map fun _ => "None") as) :=
      mild_shownAt? a (mild_map (mild_unset k as a)) as
    rw [text?]
    split
    · exact mild_text? held
    · split
      · simp
      · simp [Fault.isMild]
      · exact mild_map (mild_unset _ _ _)
    · simp
    · simp
    · exact mild_bind (at? _) fun _ =>
        mild_bind (mild_reasonAt? (mild_map (mild_unset _ _ _)) as) fun _ => mild_ok _
    · simp
    · exact mild_bind (at? _) fun _ => mild_ok _
    · exact mild_textAt? _ (mild_map (mild_unset _ _ _)) as
    · exact mild_bind (mild_shownArguments? as) fun _ => mild_ok _
    · exact mild_textOfArguments? as
    · exact mild_shown? _
theorem mild_textAt? (a : Attribute) {unset : Except Fault String} (hu : Mild unset) :
    (as : Attributes ω) → Mild (textAt? a unset as)
  | .nil => by rw [textAt?]; exact hu
  | .cons b v rest => by
    rw [textAt?]
    split
    · exact mild_text? v
    · exact mild_textAt? a hu rest
theorem mild_textOfArguments? : (as : Attributes ω) → Mild (textOfArguments? as)
  | .nil => by simp [textOfArguments?]
  | .cons a v rest => by
    unfold textOfArguments?
    split
    · split
      · simp
      · next v => exact mild_text? v
      · exact mild_shown? _
    · exact mild_textOfArguments? rest
theorem mild_reasonAt? {unset : Except Fault String} (hu : Mild unset) :
    (as : Attributes ω) → Mild (reasonAt? unset as)
  | .nil => by rw [reasonAt?]; exact hu
  | .cons a v rest => by
    rw [reasonAt?]
    split
    · exact mild_reason? v
    · exact mild_reasonAt? hu rest
theorem mild_reason? : (v : Value ω) → Mild (reason? v)
  | mismatch _ => by simp [reason?]
  | ok v => by rw [reason?]; exact mild_text? v
  | object k _ as _ _ => by rw [reason?]; exact mild_textAt? _ (mild_map (mild_unset _ _ _)) as
  | none | bool _ | int _ | str _ | list _ | tuple _ | span _ | kind _ | err _ _ | host _ => by
    simp [reason?, lacks, Fault.isMild]
end

theorem mild_equalFlat (first : Bool) (c : Comparison) (v w : Value ω) :
    Mild (equalFlat first c v w) := by
  have share (s t : Value ω) : Mild (s.sharesText t) :=
    mild_bind (mild_get _ _) fun _ => mild_ok _
  unfold equalFlat
  split
  case h_3 => split <;> exact share _ _
  all_goals simp

mutual
theorem mild_equalBy (first : Bool) (c : Comparison) : (v w : Value ω) → Mild (equalBy first c v w)
  | list xs, w => by
    unfold equalBy
    split
    · split
      · exact mild_equalAll first xs _
      · simp
    · exact mild_equalFlat _ _ _ _
  | tuple xs, w => by
    unfold equalBy
    split
    · exact mild_equalAll first xs _
    · exact mild_equalFlat _ _ _ _
  | ok v, w => by
    unfold equalBy
    split
    · refine mild_bind (mild_get _ _) fun w => ?_
      split
      split
      · simp
      · exact mild_equalBy _ _ v w
    · exact mild_equalFlat _ _ _ _
  | err e p, w => by
    unfold equalBy
    split
    · refine mild_bind (mild_get _ _) fun f => mild_bind (mild_get _ _) fun q => ?_
      have rest (same : Bool) : Mild (match Comparison.of first p.kindOf q.kindOf with
          | (c, asked) => if (!same) = true then pure false
            else if p.identical q = true then pure true else equalBy asked c p q) := by
        split
        split
        · simp
        · split
          · simp
          · exact mild_equalBy _ _ p q
      split
      dsimp only
      split
      · exact rest true
      · exact mild_bind (mild_equalBy _ _ e f) rest
    · exact mild_equalFlat _ _ _ _
  | span s, w => by
    unfold equalBy
    split
    · exact mild_bind (mild_get _ _) fun _ => mild_ok _
    · exact mild_equalFlat _ _ _ _
  | object k held as m ch, w => by
    unfold equalBy
    have of (a : Attribute) (same : Bool) : Mild (do
        let w ← w.get a
        equalAt first a same ((as.unset k a).map fun v => v.identical w) as w) :=
      mild_bind (mild_get _ _) fun w => mild_equalAt _ a same (mild_map (mild_unset _ _ _)) as w
    split
    · exact mild_equalBy first _ held w
    · exact mild_equalBy first _ held w
    · exact of _ _
    · exact of _ _
    · refine mild_bind (mild_read _ _ _) fun _ => mild_bind (mild_get _ _) fun _ => ?_
      refine mild_bind (of _ _) fun same => ?_
      split
      · exact of _ _
      · simp
    · exact of _ _
    · exact of _ _
    · exact of _ _
    · exact mild_equalFlat _ _ _ _
  | none, w | bool _, w | int _, w | str _, w | mismatch _, w | kind _, w | host _, w => by
    unfold equalBy
    exact mild_equalFlat _ _ _ _
theorem mild_equalAll (first : Bool) : (vs ws : List (Value ω)) → Mild (equalAll first vs ws)
  | [], [] => by simp [equalAll]
  | [], _ :: _ => by simp [equalAll]
  | _ :: _, [] => by simp [equalAll]
  | v :: vs, w :: ws => by
    unfold equalAll
    have rest (same : Bool) :
        Mild (if same = true then equalAll first vs ws else pure false) := by
      split
      · exact mild_equalAll first vs ws
      · simp
    split
    dsimp only
    split
    · exact rest true
    · exact mild_bind (mild_equalBy _ _ v w) rest
theorem mild_equalAt (first : Bool) (a : Attribute) (same : Bool) {unset : Except Fault Bool}
    (hu : Mild unset) : (as : Attributes ω) → (w : Value ω) →
      Mild (equalAt first a same unset as w)
  | .nil, w => by unfold equalAt; exact hu
  | .cons b v rest, w => by
    unfold equalAt
    split
    · split
      · simp
      · exact mild_equalBy _ _ v w
    · exact mild_equalAt first a same hu rest w
end

theorem mild_equal (v w : Value ω) : Mild (v.equal w) := mild_equalBy _ _ v w

end Value

theorem Outcome.mild_succeeded : (res : Outcome ω) → Mild res.succeeded
  | .ok _ | .err _ _ => by simp
  | .derived o => o.mild_truthy

theorem Mark.mild_equal (m n : Mark ω) : Mild (m.equal n) := by
  unfold Mark.equal
  split
  · simp
  · exact Value.mild_equal _ _

end ParserAlgebra
