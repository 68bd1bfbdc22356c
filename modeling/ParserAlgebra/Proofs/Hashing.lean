import ParserAlgebra.Assignment
import ParserAlgebra.Proofs.Equality

/-!
# Hashes of equal values

Hashes follow equality but for the unions: these are compared by what they wrap and hashed by the
kind of it alone. A number and a truth value, or a text and a span, may be equal and are of two
kinds, so two unions may be equal with different hashes (`Value.equal_unions_differ`). This is the
one place where the two part: equal values have one hash exactly if the unions in them wrap values
of the same kinds (`Value.hash_eq_iff_of_equal`).
-/

namespace ParserAlgebra.Value

variable {ω : Type} [HostObject ω]

/-! ## What the unions in a value wrap -/

mutual
/-- The kinds of what the unions in a value wrap, in the order in which they are met. What stands in
a union is not looked into. -/
def causeKinds : Value ω → List Kind
  | tuple items => causeKindsAll items
  | ok v => causeKinds v
  | err e p => causeKinds e ++ causeKinds p
  | object k _ attributes _ _ =>
    match Measure.ofKind? k with
    | some .success => causeKindsAt .value attributes
    | some .failure => causeKindsAt .error attributes ++ causeKindsAt .pos attributes
    | some .arguments => causeKindsAt .arguments attributes
    | some .cause => (attributes.get? .cause).toList.map kindOf
    | _ => []
  | _ => []
def causeKindsAll : List (Value ω) → List Kind
  | [] => []
  | v :: vs => causeKinds v ++ causeKindsAll vs
def causeKindsAt (a : Attribute) : Attributes ω → List Kind
  | .nil => []
  | .cons b v rest => if b = a then causeKinds v else causeKindsAt a rest
end

theorem causeKindsAt_eq (a : Attribute) (attributes : Attributes ω) :
    causeKindsAt a attributes = ((attributes.get? a).map causeKinds).getD [] := by
  cases attributes with
  | nil =>
    rw [causeKindsAt, Attributes.get?_nil]
    rfl
  | cons b v rest =>
    rw [causeKindsAt, Attributes.get?_cons]
    split
    · rfl
    · exact causeKindsAt_eq a rest

theorem hashAt?_eq (a : Attribute) (unset : Except Fault (List HashPiece))
    (attributes : Attributes ω) :
    hashAt? a unset attributes = ((attributes.get? a).map hash?).getD unset := by
  cases attributes with
  | nil =>
    rw [hashAt?, Attributes.get?_nil]
    rfl
  | cons b v rest =>
    rw [hashAt?, Attributes.get?_cons]
    split
    · rfl
    · exact hashAt?_eq a unset rest

/-! ## Hashes by what is compared -/

section Forms

variable {v a e p : Value ω} {n : Int} {s : String} {k : Kind} {attributes : Attributes ω}

theorem eq_none_of_unset {b : Attribute} (h : attributes.unset k b = .ok a) : a = none := by
  cases b
  case pos =>
    simp only [Attributes.unset] at h
    split at h
    · exact (Except.ok.inj h).symm
    · cases h
  case text =>
    simp only [Attributes.unset] at h
    split at h <;> cases h
  all_goals cases h

theorem hashAt?_of_read {b : Attribute} (h : attributes.read k b = .ok a) :
    hashAt? b ((attributes.unset k b).map fun _ => [.nothing]) attributes = a.hash? := by
  unfold Attributes.read at h
  rw [hashAt?_eq]
  rcases hb : attributes.get? b with _ | u <;> simp only [hb] at h
  · rw [h, eq_none_of_unset h]
    rfl
  · rw [Except.ok.inj h]
    rfl

theorem causeKindsAt_of_read {b : Attribute} (h : attributes.read k b = .ok a) :
    causeKindsAt b attributes = a.causeKinds := by
  unfold Attributes.read at h
  rw [causeKindsAt_eq]
  rcases hb : attributes.get? b with _ | u <;> simp only [hb] at h
  · rw [eq_none_of_unset h]
    rfl
  · rw [Except.ok.inj h]
    rfl

theorem hash?_of_counts (h : v.Counts n) : v.hash? = .ok [.number (hashInt n)] := by
  rcases h with rfl | ⟨b, rfl, rfl⟩
  · rw [hash?]
  · cases b <;> rfl

theorem causeKinds_of_counts (h : v.Counts n) : v.causeKinds = [] := by
  rcases h with rfl | ⟨b, rfl, rfl⟩ <;> rw [causeKinds] <;> simp

theorem hash?_of_reads (h : v.Reads s) : v.hash? = .ok [hashText s] := by
  rcases h with rfl | ⟨t, rfl, rfl⟩ <;> rw [hash?]

theorem causeKinds_of_reads (h : v.Reads s) : v.causeKinds = [] := by
  rcases h with rfl | ⟨t, rfl, rfl⟩ <;> rw [causeKinds] <;> simp

theorem hash?_of_success (hm : Measure.ofKind? v.kindOf = some .success)
    (ha : v.get .value = .ok a) : v.hash? = (do return grouped [← a.hash?]) ∧
      v.causeKinds = a.causeKinds := by
  cases v with
  | ok v =>
    obtain rfl := Except.ok.inj ha
    exact ⟨by rw [hash?], by rw [causeKinds]⟩
  | object k held attributes mark chained =>
    have hm : Measure.ofKind? k = some .success := hm
    refine ⟨?_, ?_⟩
    · simp only [hash?, hm]
      rw [hashAt?_of_read ha]
    · simp only [causeKinds, hm]
      rw [causeKindsAt_of_read ha]
  | _ => cases ha

theorem hash?_of_failure (hm : Measure.ofKind? v.kindOf = some .failure)
    (he : v.get .error = .ok e) (hp : v.get .pos = .ok p) :
    v.hash? = (do
      let h ← e.hash?
      return grouped [h, ← p.hash?]) ∧ v.causeKinds = e.causeKinds ++ p.causeKinds := by
  cases v with
  | err e' p' =>
    obtain rfl := Except.ok.inj he
    obtain rfl := Except.ok.inj hp
    exact ⟨by rw [hash?], by rw [causeKinds]⟩
  | object k held attributes mark chained =>
    have hm : Measure.ofKind? k = some .failure := hm
    refine ⟨?_, ?_⟩
    · simp only [hash?, hm]
      rw [hashAt?_of_read he, hashAt?_of_read hp]
    · simp only [causeKinds, hm]
      rw [causeKindsAt_of_read he, causeKindsAt_of_read hp]
  | _ => cases he

theorem hash?_of_arguments (hm : Measure.ofKind? v.kindOf = some .arguments)
    (ha : v.get .arguments = .ok a) :
    v.hash? = (do return grouped [[.kind v.kindOf], ← a.hash?]) ∧
      v.causeKinds = a.causeKinds := by
  cases v with
  | object k held attributes mark chained =>
    have hm : Measure.ofKind? k = some .arguments := hm
    refine ⟨?_, ?_⟩
    · simp only [hash?, hm]
      rw [hashAt?_of_read ha]
      rfl
    · simp only [causeKinds, hm]
      rw [causeKindsAt_of_read ha]
  | _ => cases ha

theorem hash?_of_union (hm : Measure.ofKind? v.kindOf = some .cause)
    (ha : v.get .cause = .ok a) :
    v.hash? = .ok (grouped [[.kind v.kindOf], [.kind a.kindOf]]) ∧ v.causeKinds = [a.kindOf] := by
  cases v with
  | object k held attributes mark chained =>
    have hm : Measure.ofKind? k = some .cause := hm
    have hc : attributes.get? .cause = some a := by
      have hr : attributes.read k .cause = .ok a := ha
      unfold Attributes.read at hr
      rcases hc : attributes.get? .cause with _ | u <;> simp only [hc] at hr
      · cases hr
      · rw [Except.ok.inj hr]
    refine ⟨?_, ?_⟩
    · simp only [hash?, hm, hc]
      rfl
    · simp only [causeKinds, hm, hc]
      rfl
  | _ => cases ha

end Forms

/-! ## Hashes that match -/

/-- Two hashes, and what the unions wrap of which they were made: they have one form, and are the
same exactly if the unions wrap the same kinds. A hash that is a number is made of no union. -/
structure Matched (l l' : List HashPiece) (ks ks' : List Kind) : Prop where
  length_eq : l.length = l'.length
  number_eq : hashNumber? l = hashNumber? l'
  count_eq : ks.length = ks'.length
  quiet : hashNumber? l ≠ .none → ks = []
  eq_iff : l = l' ↔ ks = ks'

/-- The same of the members of a group. -/
structure MatchedAll (ls ls' : List (List HashPiece)) (ks ks' : List Kind) : Prop where
  size_eq : ls.length = ls'.length
  length_eq : ls.flatten.length = ls'.flatten.length
  numbers_eq : ls.mapM hashNumber? = ls'.mapM hashNumber?
  count_eq : ks.length = ks'.length
  quiet : ls.mapM hashNumber? ≠ .none → ks = []
  eq_iff : ls.flatten = ls'.flatten ↔ ks = ks'

section Matched

variable {l l' : List HashPiece} {ls ls' : List (List HashPiece)} {ks ks' js js' : List Kind}

theorem Matched.refl (h : hashNumber? l ≠ .none → ks = []) : Matched l l ks ks :=
  ⟨rfl, rfl, rfl, h, by simp⟩

theorem MatchedAll.nil : MatchedAll [] [] [] [] := ⟨rfl, rfl, rfl, rfl, fun _ => rfl, by simp⟩

theorem append_eq_iff {α : Type} {as as' bs bs' : List α} (h : as.length = as'.length) :
    as ++ bs = as' ++ bs' ↔ as = as' ∧ bs = bs' :=
  ⟨fun he => List.append_inj he h, fun ⟨ha, hb⟩ => by rw [ha, hb]⟩

theorem MatchedAll.cons (ht : MatchedAll ls ls' js js') (h : Matched l l' ks ks') :
    MatchedAll (l :: ls) (l' :: ls') (ks ++ js) (ks' ++ js') where
  size_eq := by simp [ht.size_eq]
  length_eq := by simp [h.length_eq, ht.length_eq]
  numbers_eq := by simp [h.number_eq, ht.numbers_eq]
  count_eq := by simp [h.count_eq, ht.count_eq]
  quiet hn := by
    rw [h.quiet fun hl => hn (by simp [hl]), ht.quiet fun hls => hn (by simp [hls])]
    rfl
  eq_iff := by
    rw [List.flatten_cons, List.flatten_cons, append_eq_iff h.length_eq, append_eq_iff h.count_eq,
      h.eq_iff, ht.eq_iff]

theorem MatchedAll.grouped (h : MatchedAll ls ls' ks ks') :
    Matched (grouped ls) (grouped ls') ks ks' := by
  unfold Value.grouped
  rw [← h.numbers_eq, ← h.size_eq]
  rcases hn : ls.mapM hashNumber? with _ | ns
  · exact ⟨by simp [h.length_eq], rfl, h.count_eq, fun hq => absurd rfl hq, by simp [h.eq_iff]⟩
  · have hq : ks = [] := h.quiet (by simp [hn])
    have hq' : ks' = [] := List.length_eq_zero_iff.1 (by rw [← h.count_eq, hq]; rfl)
    exact ⟨rfl, rfl, h.count_eq, fun _ => hq, by simp [hq, hq']⟩

theorem Matched.grouped_one (h : Matched l l' ks ks') :
    Matched (grouped [l]) (grouped [l']) ks ks' := by
  have hall := (MatchedAll.nil.cons h).grouped
  rwa [List.append_nil, List.append_nil] at hall

theorem Matched.grouped_two {m m' : List HashPiece} (h : Matched l l' ks ks')
    (hm : Matched m m' js js') : Matched (grouped [l, m]) (grouped [l', m']) (ks ++ js) (ks' ++ js') := by
  have hall := ((MatchedAll.nil.cons hm).cons h).grouped
  rwa [List.append_nil, List.append_nil] at hall

end Matched

/-- A group that is a number is made of numbers. -/
theorem mapM_of_grouped {ls : List (List HashPiece)} (h : hashNumber? (grouped ls) ≠ .none) :
    ls.mapM hashNumber? ≠ .none := by
  unfold grouped at h
  rcases hn : ls.mapM hashNumber? with _ | ns
  · rw [hn] at h
    exact absurd rfl h
  · simp

mutual
/-- A hash that is a number is made of no union. -/
theorem causeKinds_of_hashNumber? : (v : Value ω) → {l : List HashPiece} → v.hash? = .ok l →
    hashNumber? l ≠ .none → v.causeKinds = []
  | tuple items, l, h, hl => by
    rw [hash?] at h
    obtain ⟨ls, hls, h⟩ := exists_of_bind h
    cases h
    rw [causeKinds]
    exact causeKindsAll_of_hashNumber? items hls (mapM_of_grouped hl)
  | ok v, l, h, hl => by
    rw [hash?] at h
    obtain ⟨m, hv, h⟩ := exists_of_bind h
    cases h
    rw [causeKinds]
    exact causeKinds_of_hashNumber? v hv fun hn => mapM_of_grouped hl (by simp [hn])
  | err e p, l, h, hl => by
    rw [hash?] at h
    obtain ⟨m, he, h⟩ := exists_of_bind h
    obtain ⟨n, hp, h⟩ := exists_of_bind h
    cases h
    rw [causeKinds, causeKinds_of_hashNumber? e he fun hn => mapM_of_grouped hl (by simp [hn]),
      causeKinds_of_hashNumber? p hp fun hn => mapM_of_grouped hl (by simp [hn])]
    rfl
  | object k held attributes mark chained, l, h, hl => by
    rw [causeKinds]
    split
    · next hm =>
      simp only [hash?, hm] at h
      obtain ⟨m, ha, h⟩ := exists_of_bind h
      cases h
      exact causeKindsAt_of_hashNumber? _ attributes ha fun hn => mapM_of_grouped hl (by simp [hn])
    · next hm =>
      simp only [hash?, hm] at h
      obtain ⟨m, he, h⟩ := exists_of_bind h
      obtain ⟨n, hp, h⟩ := exists_of_bind h
      cases h
      rw [causeKindsAt_of_hashNumber? _ attributes he
          fun hn => mapM_of_grouped hl (by simp [hn]),
        causeKindsAt_of_hashNumber? _ attributes hp fun hn => mapM_of_grouped hl (by simp [hn])]
      rfl
    · next hm =>
      simp only [hash?, hm] at h
      obtain ⟨m, ha, h⟩ := exists_of_bind h
      cases h
      exact causeKindsAt_of_hashNumber? _ attributes ha fun hn => mapM_of_grouped hl (by simp [hn])
    · next hm =>
      simp only [hash?, hm] at h
      rcases hc : attributes.get? .cause with _ | u <;> simp only [hc] at h
      · rfl
      · cases h
        exact absurd rfl hl
    · rfl
  | none, _, _, _ | bool _, _, _, _ | int _, _, _, _ | str _, _, _, _ | list _, _, _, _
  | span _, _, _, _ | mismatch _, _, _, _ | kind _, _, _, _ | host _, _, _, _ => by simp [causeKinds]
theorem causeKindsAll_of_hashNumber? : (vs : List (Value ω)) → {ls : List (List HashPiece)} →
    hashAll? vs = .ok ls → ls.mapM hashNumber? ≠ .none → causeKindsAll vs = []
  | [], _, _, _ => by rw [causeKindsAll]
  | v :: vs, ls, h, hl => by
    rw [hashAll?] at h
    obtain ⟨l, hv, h⟩ := exists_of_bind h
    obtain ⟨ls', hvs, h⟩ := exists_of_bind h
    cases h
    rw [causeKindsAll, causeKinds_of_hashNumber? v hv fun hn => hl (by simp [hn]),
      causeKindsAll_of_hashNumber? vs hvs fun hn => hl (by simp [hn])]
    rfl
theorem causeKindsAt_of_hashNumber? {a : Attribute} (unset : Except Fault (List HashPiece)) :
    (attributes : Attributes ω) → {l : List HashPiece} → hashAt? a unset attributes = .ok l →
      hashNumber? l ≠ .none → causeKindsAt a attributes = []
  | .nil, _, _, _ => by rw [causeKindsAt]
  | .cons b v rest, l, h, hl => by
    rw [hashAt?] at h
    rw [causeKindsAt]
    split at h
    · next hb =>
      rw [if_pos hb]
      exact causeKinds_of_hashNumber? v h hl
    · next hb =>
      rw [if_neg hb]
      exact causeKindsAt_of_hashNumber? unset rest h hl
end

/-! ## Equal values -/

variable {objectAt : Nat → Value ω} {v w : Value ω}

theorem matched_self {l l' : List HashPiece} (hv : v.hash? = .ok l) (hv' : v.hash? = .ok l') :
    Matched l l' v.causeKinds v.causeKinds := by
  obtain rfl : l = l' := Except.ok.inj (hv.symm.trans hv')
  exact .refl (causeKinds_of_hashNumber? v hv)

/-- The hashes of two values, if they have any, match. -/
def HashesMatch (v w : Value ω) : Prop :=
  ∀ l l', v.hash? = .ok l → w.hash? = .ok l' → Matched l l' v.causeKinds w.causeKinds

theorem matchedAll_of_forall₂ {vs ws : List (Value ω)} (h : List.Forall₂ HashesMatch vs ws)
    {ls ls' : List (List HashPiece)} (hvs : hashAll? vs = .ok ls) (hws : hashAll? ws = .ok ls') :
    MatchedAll ls ls' (causeKindsAll vs) (causeKindsAll ws) := by
  induction h generalizing ls ls' with
  | nil =>
    cases hvs
    cases hws
    exact .nil
  | cons h _ ih =>
    rw [hashAll?] at hvs hws
    obtain ⟨l, hv, hvs⟩ := exists_of_bind hvs
    obtain ⟨ms, hvs', hvs⟩ := exists_of_bind hvs
    obtain ⟨l', hw, hws⟩ := exists_of_bind hws
    obtain ⟨ms', hws', hws⟩ := exists_of_bind hws
    cases hvs
    cases hws
    exact (ih hvs' hws').cons (h l l' hv hw)

/-- The hashes of equal values match. -/
theorem Regular.hashesMatch {first : Bool} (hv : v.Regular objectAt) (hw : w.Regular objectAt)
    (h : v.compared first w = .ok true) : HashesMatch v w := by
  induction hv generalizing w first with
  | @mk v hform hparts ih =>
    have hpart {u x : Value ω} (hu : u.Part v) (hx : x.Part w) (hux : u.Agrees x) :
        HashesMatch u x := by
      rcases hux with hsame | ⟨first, hux⟩
      · obtain rfl := (hparts u hu).formed.eq_of_identical (hw.part hx).formed hsame
        exact fun _ _ => matched_self
      · exact ih u hu (hw.part hx) hux
    intro l l' hl hl'
    cases alike_of_compared hform hw.formed h with
    | same => exact matched_self hl hl'
    | number hv hw =>
      rw [hash?_of_counts hv] at hl
      rw [hash?_of_counts hw] at hl'
      cases hl
      cases hl'
      rw [causeKinds_of_counts hv, causeKinds_of_counts hw]
      exact .refl fun _ => rfl
    | text hv hw =>
      rw [hash?_of_reads hv] at hl
      rw [hash?_of_reads hw] at hl'
      cases hl
      cases hl'
      rw [causeKinds_of_reads hv, causeKinds_of_reads hw]
      exact .refl fun _ => rfl
    | @tuple vs ws hall =>
      rw [hash?] at hl hl'
      obtain ⟨ls, hls, hl⟩ := exists_of_bind hl
      obtain ⟨ls', hls', hl'⟩ := exists_of_bind hl'
      cases hl
      cases hl'
      rw [causeKinds, causeKinds]
      have hitems : List.Forall₂ HashesMatch vs ws := by
        rw [List.forall₂_iff_get] at hall ⊢
        refine ⟨hall.1, fun i hi hi' => ?_⟩
        exact hpart (.inl ⟨vs, rfl, List.get_mem ..⟩) (.inl ⟨ws, rfl, List.get_mem ..⟩)
          (hall.2 i hi hi')
      exact (matchedAll_of_forall₂ hitems hls hls').grouped
    | success hm hk ha hb hab =>
      have hm' := hk ▸ hm
      have hmatch := hpart (part_of_mem hm (by decide) ha) (part_of_mem hm' (by decide) hb) hab
      obtain ⟨hv, hkv⟩ := hash?_of_success hm ha
      obtain ⟨hw, hkw⟩ := hash?_of_success hm' hb
      rw [hv] at hl
      rw [hw] at hl'
      obtain ⟨m, hm, hl⟩ := exists_of_bind hl
      obtain ⟨m', hm', hl'⟩ := exists_of_bind hl'
      cases hl
      cases hl'
      rw [hkv, hkw]
      exact (hmatch m m' hm hm').grouped_one
    | failure hm hk he hf hp hq hef hpq =>
      have hm' := hk ▸ hm
      have herror := hpart (part_of_mem hm (by decide) he) (part_of_mem hm' (by decide) hf) hef
      have hpos := hpart (part_of_mem hm (by decide) hp) (part_of_mem hm' (by decide) hq) hpq
      obtain ⟨hv, hkv⟩ := hash?_of_failure hm he hp
      obtain ⟨hw, hkw⟩ := hash?_of_failure hm' hf hq
      rw [hv] at hl
      rw [hw] at hl'
      obtain ⟨m, hm, hl⟩ := exists_of_bind hl
      obtain ⟨n, hn, hl⟩ := exists_of_bind hl
      obtain ⟨m', hm', hl'⟩ := exists_of_bind hl'
      obtain ⟨n', hn', hl'⟩ := exists_of_bind hl'
      cases hl
      cases hl'
      rw [hkv, hkw]
      exact (herror m m' hm hm').grouped_two (hpos n n' hn hn')
    | arguments hm hk ha hb hab =>
      have hm' := hk ▸ hm
      have hmatch := hpart (part_of_mem hm (by decide) ha) (part_of_mem hm' (by decide) hb) hab
      obtain ⟨hv, hkv⟩ := hash?_of_arguments hm ha
      obtain ⟨hw, hkw⟩ := hash?_of_arguments hm' hb
      rw [hv] at hl
      rw [hw, hk] at hl'
      obtain ⟨m, hm, hl⟩ := exists_of_bind hl
      obtain ⟨m', hm', hl'⟩ := exists_of_bind hl'
      cases hl
      cases hl'
      rw [hkv, hkw]
      exact Matched.grouped_two (.refl fun _ => rfl) (hmatch m m' hm hm')
    | union hm hk ha hb hab =>
      obtain ⟨hv, hkv⟩ := hash?_of_union hm ha
      obtain ⟨hw, hkw⟩ := hash?_of_union (hk ▸ hm) hb
      rw [hv] at hl
      rw [hw, hk] at hl'
      cases hl
      cases hl'
      rw [hkv, hkw]
      exact ⟨rfl, rfl, rfl, fun hn => absurd rfl hn, by simp [grouped, hashNumber?]⟩

/-- Equal values that can be hashed have one hash exactly if what the unions in them wrap is of the
same kinds. -/
theorem hash_eq_iff_of_equal (hv : v.Regular objectAt) (hw : w.Regular objectAt)
    (h : v.equal w = .ok true) {l l' : List HashPiece} (hl : v.hash? = .ok l)
    (hl' : w.hash? = .ok l') : l = l' ↔ v.causeKinds = w.causeKinds := by
  rw [equal_eq_compared] at h
  exact (hv.hashesMatch hw h l l' hl hl').eq_iff

/-- Two failures of one kind, one with a span and the other with the text of it. -/
theorem hash_eq_of_equal_failures :
    let v : Value Assignment.Function :=
      .object .parseFailure .none (.cons .arguments (.tuple [.span ⟨['a', 'b'], 0, 1⟩]) .nil) 1 .none
    let w : Value Assignment.Function :=
      .object .parseFailure .none (.cons .arguments (.tuple [.str "a"]) .nil) 2 .none
    ∃ (objectAt : Nat → Value Assignment.Function) (l : List HashPiece), v.Regular objectAt ∧
      w.Regular objectAt ∧ v.equal w = .ok true ∧ v.hash? = .ok l ∧ w.hash? = .ok l := by
  intro v w
  let objectAt : Nat → Value Assignment.Function := fun n => if n = 1 then v else w
  have hbare : Kind.parseFailure.Bare :=
    Kind.bare_of_isException (by decide) (by decide) (by decide)
  have hparts : Measure.parts (Measure.ofKind? .parseFailure) = [.arguments] := by decide
  have hv : v.Regular objectAt :=
    .object hbare (fun _ => rfl) hparts rfl (.tuple (List.forall_mem_singleton.2 (.span _)))
  have hw : w.Regular objectAt :=
    .object hbare (fun _ => rfl) hparts rfl (.tuple (List.forall_mem_singleton.2 (.str _)))
  obtain ⟨l, hl⟩ : ∃ l, v.hash? = .ok l := ⟨_, rfl⟩
  obtain ⟨l', hl'⟩ : ∃ l, w.hash? = .ok l := ⟨_, rfl⟩
  have hequal : v.equal w = .ok true := rfl
  have hkinds : v.causeKinds = w.causeKinds := rfl
  have hhash : l = l' := (hash_eq_iff_of_equal hv hw hequal hl hl').2 hkinds
  exact ⟨objectAt, l, hv, hw, hequal, hl, hhash ▸ hl'⟩

/-- Two unions of one kind around the number one and the truth value of it are equal, and have
different hashes. -/
theorem equal_unions_differ :
    let union : Kind := .mk "U" 1 [.errorUnion]
    let made (a : Attributes Assignment.Function) (mark : Nat) := Value.object union .none a mark .none
    ∃ (a b : Attributes Assignment.Function) (objectAt : Nat → Value Assignment.Function)
        (l l' : List HashPiece),
      construct union [.int 1] = .ok (made a 0) ∧ construct union [.bool true] = .ok (made b 0) ∧
        (made a 1).Regular objectAt ∧ (made b 2).Regular objectAt ∧
        (made a 1).equal (made b 2) = .ok true ∧ (made a 1).hash? = .ok l ∧ (made b 2).hash? = .ok l' ∧
        l ≠ l' := by
  intro union made
  have hbare : union.Bare := Kind.bare_of_isException (by decide) (by decide) (by decide)
  have hparts : Measure.parts (Measure.ofKind? union) = [] := by decide
  have regular {a : Attributes Assignment.Function} {mark : Nat}
      {objectAt : Nat → Value Assignment.Function} (hmark : objectAt mark = made a mark) :
      (made a mark).Regular objectAt := by
    refine ⟨⟨hbare, fun _ => hmark⟩, ?_⟩
    rintro u (⟨items, h, -⟩ | ⟨b, hb, -⟩)
    · cases h
    · change b ∈ Measure.parts (Measure.ofKind? union) at hb
      simp [hparts] at hb
  obtain ⟨a, ha⟩ : ∃ a, construct union [.int 1] = .ok (made a 0) := ⟨_, rfl⟩
  obtain ⟨b, hb⟩ : ∃ b, construct union [.bool true] = .ok (made b 0) := ⟨_, rfl⟩
  let objectAt : Nat → Value Assignment.Function := fun n => if n = 1 then made a 1 else made b 2
  cases ha
  cases hb
  exact ⟨_, _, objectAt, _, _, rfl, rfl, regular rfl, regular rfl, rfl, rfl, rfl, by decide⟩

end ParserAlgebra.Value
