import ParserAlgebra.Proofs.Ensures

/-!
# Converting an error

What is checked when parsers are put together is a fact about declared kinds
(`canConvert_kind`); what happens when one of them fails depends on the kind of the error. The
two agree because a lineage holds the lineages of all it inherits from: where a kind has a
conversion into `t`, so has every kind that inherits from it (`find?_isSome_of_isA`), also later, if
no conversion was taken back (`Registry.Within`).
-/

namespace ParserAlgebra

variable {ω σ : Type} [HostObject ω] {cb : Callbacks ω σ} {c : Context ω} {s t : State ω σ}

/-- Every value is of the kind `object`. -/
def Declared.Admits (d : Declared ω) (v : Value ω) : Prop :=
  d.isUndeclared = true ∨ d.holds? v.kindOf = some true

@[simp] theorem Declared.admits_kind {k : Kind} {v : Value ω} :
    (Declared.kind k : Declared ω).Admits v ↔ k = .object ∨ v.isA k = true := by
  simp [Admits, isUndeclared, holds?, Value.isA]

/-- Nothing is an instance of Infallible, nor of a kind that inherits from it. -/
structure Value.Instance (v : Value ω) (k : Kind) : Prop where
  isA : v.isA k = true
  fallible : v.kindOf.isInfallible = false

theorem Value.Instance.not_infallible {v : Value ω} {k : Kind} (h : v.Instance k) :
    k.isInfallible = false := by
  rcases hk : k.isInfallible with _ | _
  · rfl
  · exact (Kind.isA_trans h.isA hk).symm.trans h.fallible

theorem Value.Instance.trans {v : Value ω} {k l : Kind} (h : v.Instance k)
    (hl : k.isA l = true) : v.Instance l := ⟨Kind.isA_trans h.isA hl, h.fallible⟩

theorem findSomeM?_ne_some {α β : Type} {f : α → Except Fault (Option β)}
    (hf : ∀ a b, f a ≠ .ok (some b)) (b : β) : ∀ l : List α, l.findSomeM? f ≠ .ok (some b)
  | [] => by simp [List.findSomeM?, pure, Except.pure]
  | a :: l => by
    rw [List.findSomeM?]
    rcases h : f a with g | _ | b'
    · exact fun h' => by cases h'
    · exact findSomeM?_ne_some hf b l
    · exact absurd h (hf a b')

namespace Registry

omit [HostObject ω] in
theorem find?_isSome_iff {r : Registry ω} {source target : Kind} :
    (r.find? source target).isSome = true ↔
      ∃ k ∈ source.lineage, (r.get? k target).isSome = true := by
  simp [find?, List.findSome?_isSome_iff]

/-- Every conversion that is declared in `r` is still declared in `r'`, perhaps as another one. -/
def Within (r r' : Registry ω) : Prop :=
  ∀ source target, (r.get? source target).isSome = true → (r'.get? source target).isSome = true

omit [HostObject ω] in
theorem Within.refl (r : Registry ω) : r.Within r := fun _ _ h => h

omit [HostObject ω] in
theorem find?_isSome_of_isA {r r' : Registry ω} (hr : r.Within r') {source heir target : Kind}
    (hh : heir.isA source = true) (h : (r.find? source target).isSome = true) :
    (r'.find? heir target).isSome = true := by
  obtain ⟨k, hk, hg⟩ := find?_isSome_iff.1 h
  exact find?_isSome_iff.2 ⟨k, Kind.lineage_subset _ (Kind.isA_iff.1 hh) hk, hr k target hg⟩

theorem canConvert_kind (r : Registry ω) (source target : Kind) :
    r.canConvert (.kind source) (.kind target) =
      .ok (target = .object || source.isA target || source.isInfallible ||
        (r.find? source target).isSome) := by
  by_cases ho : target = .object
  · simp [canConvert, Declared.isUndeclared, ho]
  · cases ha : source.isA target <;> cases hi : source.isInfallible <;>
      simp [canConvert, Declared.isUndeclared, Declared.kind?, Declared.holds?, ho, ha, hi, bind,
        Except.bind, pure, Except.pure]

/-- Where nothing was declared into a plain value, nothing is found there. -/
theorem stray?_of_nil {r : Registry ω} (h : r.strays = []) (source : Kind) (v : Value ω)
    (conv : Conversion ω) : r.stray? source v ≠ .ok (some conv) := by
  unfold stray?
  refine findSomeM?_ne_some (fun k b => ?_) conv _
  split
  · rcases v.hash? with f | n
    · exact fun h' => by cases h'
    · rw [h]
      exact fun h' => by cases h'
  · exact fun h' => by cases h'

end Registry

namespace Conversion

/-- An error that is of the declared kind is left as it is. -/
theorem coerce_of_admits {e : Value ω} {d : Declared ω} (h : d.Admits e) :
    coerce cb e d = pure e := by
  unfold coerce
  rcases h with h | h
  · rw [if_pos h]
  · split
    · rfl
    · rw [h]

/-- What is done with an error that is not of the declared kind. -/
theorem coerce_of_not_admits {e : Value ω} {k : Kind}
    (h : ¬ (Declared.kind k : Declared ω).Admits e) :
    (coerce cb e (.kind k) : Action ω σ (Value ω)) = (do
      match (← Action.context).registry.find? e.kindOf k with
      | some conv => apply cb (.kind k) e conv
      | none =>
        Action.note .debug .errors (e.shown?.map fun e => "cannot convert " ++ e ++ " into " ++ k.name)
        Action.fault (.missingConversion e.kindOf.name k.name none)) := by
  simp only [Declared.admits_kind, not_or, Bool.not_eq_true] at h
  unfold coerce
  rw [if_neg (by simpa [Declared.isUndeclared] using h.1)]
  have hA : (Declared.kind k : Declared ω).holds? e.kindOf = some false := congrArg some h.2
  generalize (Declared.kind k : Declared ω).holds? e.kindOf = admitted at hA ⊢
  subst hA
  rfl

theorem coerce_of_find? {e : Value ω} {k : Kind} {conv : Conversion ω}
    (h : ¬ (Declared.kind k : Declared ω).Admits e)
    (hf : c.registry.find? e.kindOf k = some conv) :
    coerce cb e (.kind k) c s = apply cb (.kind k) e conv c s := by
  rw [coerce_of_not_admits h, Action.bind_apply]
  simp only [Action.context_apply, hf]

theorem ensures_coerce_of_find? {e : Value ω} {k : Kind} {conv : Conversion ω}
    {P R : Value ω → Prop} (h : ¬ (Declared.kind k : Declared ω).Admits e)
    (hf : c.registry.find? e.kindOf k = some conv) (hx : (apply cb (.kind k) e conv).Ensures c P R) :
    (coerce cb e (.kind k)).Ensures c P R :=
  ⟨fun hr => hx.returned ((coerce_of_find? h hf).symm.trans hr),
    fun hr => hx.raised ((coerce_of_find? h hf).symm.trans hr)⟩

/-- An error for which there is no conversion is not returned. -/
theorem ensures_coerce_of_none {e : Value ω} {k : Kind}
    (h : ¬ (Declared.kind k : Declared ω).Admits e) (hf : c.registry.find? e.kindOf k = none) :
    (coerce cb e (.kind k)).Ensures c (fun _ => False) fun _ => True := by
  rw [coerce_of_not_admits h]
  refine .bind .context fun _ hd => ?_
  rw [hd, hf]
  exact .bind (.note ..) fun _ _ => .fault trivial

/-- An error for which there is no conversion is raised as a fault. -/
theorem coerce_of_find?_none {e : Value ω} {k : Kind}
    (h : ¬ (Declared.kind k : Declared ω).Admits e) (hf : c.registry.find? e.kindOf k = none) :
    ∃ u, coerce cb e (.kind k) c s =
      (.raised (Fault.missingConversion e.kindOf.name k.name none).exception, u) := by
  rw [coerce_of_not_admits h, Action.bind_apply]
  simp only [Action.context_apply, hf, Action.bind_apply]
  rw [Action.note_apply]
  exact ⟨_, rfl⟩

end Conversion

namespace Parser

theorem retarget_of_infallible {name : String} {d target : Declared ω} {res : Outcome ω}
    {e : Value ω} {said : String} (hd : d.isInfallible = true) (he : res.error = .ok e)
    (hs : e.shown? = .ok said) :
    retarget cb name d target res c s =
      (.raised (Fault.infallibleFailed name said).exception, s) := by
  rcases d with k | v
  · have hk : k.isInfallible = true := hd
    simp [retarget, Declared.kind?, hk, he, hs, Action.bind_apply]
  · cases hd

theorem retarget_of_fallible {name : String} {k : Kind} {target : Declared ω} {res : Outcome ω}
    {e : Value ω} (hk : k.isInfallible = false) (he : res.error = .ok e) :
    retarget cb name (.kind k) target res =
      (do return .err (← Conversion.coerce cb e target) (← res.pos)) := by
  simp [retarget, Declared.kind?, hk, he]

/-- A failure whose error is of the target kind is handed on. -/
theorem retarget_of_admits {name : String} {k : Kind} {target : Declared ω} {res : Outcome ω}
    {e pos : Value ω} (hk : k.isInfallible = false) (he : res.error = .ok e) (hp : res.pos = .ok pos)
    (ha : target.Admits e) :
    retarget cb name (.kind k) target res = (Pure.pure (.err e pos) : Action ω σ (Outcome ω)) := by
  rw [retarget_of_fallible hk he, Conversion.coerce_of_admits ha, hp]
  rfl

/-- The error of a text that does not come next is not converted on its way out. -/
theorem retarget_takeError {name : String} {k : Kind} (hk : k.isInfallible = false) (literal : String)
    (reason : Mismatch) (m : Mark ω) :
    retarget cb name (.kind k) (.kind .takeError) (.failedAt (.takeError literal reason) m) c s =
      (.returned (.failedAt (.takeError literal reason) m), s) := by
  rw [retarget_of_admits hk rfl rfl (Declared.admits_kind.2 (.inr rfl))]
  rfl

end Parser

end ParserAlgebra
