/-!
# Kinds of values

Every value is of a kind, and kinds are ordered by inheritance: a kind names its bases, and its
*lineage* lists the kind itself and all it inherits from, nearest first. The lineage merges the
lineages of the bases so that each kind comes before its own bases and the bases keep the order in
which they are named (`Kind.merge`). Bases for which there is no such order derive nothing
(`Kind.derive?`).

The kinds of a lineage are exactly the kind and the lineages of its bases (`Kind.mem_lineage`), so
inheritance is transitive (`Kind.isA_trans`), whatever the bases are.
-/

namespace ParserAlgebra

/-- A kind, told apart by its name, its serial number and its bases. The kinds that are always there
have serial number zero; every other kind is given a number of its own when it is made. -/
inductive Kind where
  | mk (name : String) (serial : Nat) (bases : List Kind)

namespace Kind

def name : Kind → String
  | mk n _ _ => n

def serial : Kind → Nat
  | mk _ s _ => s

def bases : Kind → List Kind
  | mk _ _ bs => bs

mutual
def decEq : (a b : Kind) → Decidable (a = b)
  | mk n s bs, mk m t cs =>
    if h : s = t ∧ n = m then
      match decEqList bs cs with
      | .isTrue e => .isTrue (by rw [h.1, h.2, e])
      | .isFalse e => .isFalse (by intro k; injection k; contradiction)
    else .isFalse (by intro k; injection k with hn hs; exact h ⟨hs, hn⟩)
/-- Lists that are one in memory are not looked into. -/
def decEqList (as bs : List Kind) : Decidable (as = bs) :=
  withPtrEqDecEq as bs fun _ =>
    match as, bs with
    | [], [] => .isTrue rfl
    | [], _ :: _ => .isFalse (by intro h; cases h)
    | _ :: _, [] => .isFalse (by intro h; cases h)
    | a :: as, b :: bs =>
      match decEq a b, decEqList as bs with
      | .isTrue h, .isTrue k => .isTrue (by rw [h, k])
      | .isFalse h, _ => .isFalse (by intro k; injection k; contradiction)
      | _, .isFalse h => .isFalse (by intro k; injection k; contradiction)
end

instance : DecidableEq Kind := fun a b => withPtrEqDecEq a b fun _ => decEq a b

/-- The first head of the lists that stands in no tail. -/
def pick? (lists : List (List Kind)) : Option Kind :=
  (lists.filterMap List.head?).find? fun k => lists.all fun l => !l.tail.contains k

/-- Merges lists of kinds into one that keeps the order of each: the first head that stands in no
tail comes first, is taken off every list it heads, and so on. `none` when no head can be taken
although kinds remain. The number bounds the steps; the total length of the lists is enough. -/
def mergeWithin : Nat → List (List Kind) → Option (List Kind)
  | 0, lists => if lists.all List.isEmpty then some [] else none
  | n + 1, lists =>
    if lists.all List.isEmpty then some [] else do
      let k ← pick? lists
      let rest ← mergeWithin n (lists.map fun l => if l.head? = some k then l.tail else l)
      return k :: rest

def merge (lists : List (List Kind)) : Option (List Kind) :=
  mergeWithin lists.flatten.length lists

theorem mem_flatten_of_pick? {lists : List (List Kind)} {k : Kind} (h : pick? lists = some k) :
    k ∈ lists.flatten := by
  obtain ⟨l, hl, hk⟩ := List.mem_filterMap.1 (List.mem_of_find?_eq_some h)
  exact List.mem_flatten.2 ⟨l, hl, List.mem_of_head? hk⟩

theorem mem_of_mergeWithin {k : Kind} :
    ∀ {n : Nat} {lists : List (List Kind)} {merged : List Kind},
      mergeWithin n lists = some merged → (k ∈ merged ↔ k ∈ lists.flatten)
  | 0, lists, merged, h => by
    simp only [mergeWithin, Option.ite_none_right_eq_some, Option.some.injEq] at h
    obtain ⟨he, rfl⟩ := h
    simp only [List.all_eq_true, List.isEmpty_iff] at he
    simpa using fun l hl hk => by simp [he l hl] at hk
  | n + 1, lists, merged, h => by
    rw [mergeWithin] at h
    split at h
    · next he =>
      cases h
      simp only [List.all_eq_true, List.isEmpty_iff] at he
      simpa using fun l hl hk => by simp [he l hl] at hk
    · obtain ⟨t, ht, h⟩ := Option.bind_eq_some_iff.1 h
      obtain ⟨rest, hr, h⟩ := Option.bind_eq_some_iff.1 h
      cases h
      rw [List.mem_cons, mem_of_mergeWithin hr]
      constructor
      · rintro (rfl | h)
        · exact mem_flatten_of_pick? ht
        · obtain ⟨l', hl', hk⟩ := List.mem_flatten.1 h
          obtain ⟨l, hl, rfl⟩ := List.mem_map.1 hl'
          refine List.mem_flatten.2 ⟨l, hl, ?_⟩
          split at hk
          · exact List.mem_of_mem_tail hk
          · exact hk
      · intro h
        obtain ⟨l, hl, hk⟩ := List.mem_flatten.1 h
        by_cases hkt : k = t
        · exact .inl hkt
        · refine .inr (List.mem_flatten.2 ⟨_, List.mem_map.2 ⟨l, hl, rfl⟩, ?_⟩)
          split
          · next hh =>
            cases l with
            | nil => cases hk
            | cons a l =>
              rcases List.mem_cons.1 hk with rfl | hk
              · simp at hh; exact absurd hh hkt
              · exact hk
          · exact hk

/-- The merged lineages of the bases, then the bases themselves; where nothing keeps all the orders
the kinds stand in the order in which they are met. A single base hands its lineage on. -/
def ancestry : List (List Kind) → List Kind → List Kind
  | [lineage], _ => lineage
  | lineages, bases =>
    (merge (lineages ++ [bases])).getD (lineages ++ [bases]).flatten.eraseDups

theorem mem_merge_getD {k : Kind} {lists : List (List Kind)} :
    k ∈ (merge lists).getD lists.flatten.eraseDups ↔ k ∈ lists.flatten := by
  unfold merge
  cases h : mergeWithin lists.flatten.length lists with
  | none => simp
  | some m => simp [mem_of_mergeWithin h]

theorem mem_ancestry {k : Kind} {f : Kind → List Kind} (hf : ∀ b, b ∈ f b) :
    (bs : List Kind) → (k ∈ ancestry (bs.map f) bs ↔ ∃ b ∈ bs, k ∈ f b)
  | [] => by
    rw [List.map_nil, ancestry, mem_merge_getD]
    · simp
    · simp
  | [b] => by simp [ancestry]
  | b :: c :: bs => by
    rw [List.map_cons, List.map_cons, ancestry, mem_merge_getD, ← List.map_cons, ← List.map_cons]
    · simp only [List.flatten_append, List.mem_append, List.mem_flatten, List.mem_map,
        List.mem_singleton]
      constructor
      · rintro (⟨l, ⟨b, hb, rfl⟩, h⟩ | ⟨l, rfl, h⟩)
        · exact ⟨b, hb, h⟩
        · exact ⟨k, h, hf k⟩
      · rintro ⟨b, hb, h⟩
        exact .inl ⟨_, ⟨b, hb, rfl⟩, h⟩
    · simp

/-! ## Lineages -/

mutual
/-- The kind, then the ancestry that the same rule gives of its bases. -/
def unfolded : Kind → List Kind
  | mk n s bs => mk n s bs :: ancestry (unfoldedAll bs) bs
def unfoldedAll : List Kind → List (List Kind)
  | [] => []
  | b :: bs => unfolded b :: unfoldedAll bs
end

theorem unfoldedAll_eq_map : (bs : List Kind) → unfoldedAll bs = bs.map unfolded
  | [] => rfl
  | b :: bs => by rw [unfoldedAll, unfoldedAll_eq_map bs, List.map_cons]

theorem self_mem_unfolded : (k : Kind) → k ∈ k.unfolded
  | mk _ _ _ => by simp [unfolded]

/-- Lineages that have been worked out. -/
abbrev Known := List (Kind × List Kind)

namespace Known

def get (known : Known) (k : Kind) : List Kind := (known.lookup k).getD []

/-- What is known is right. -/
def Sound (known : Known) : Prop := ∀ k l, known.lookup k = some l → l = k.unfolded

end Known

mutual
/-- Works out the lineage of a kind and those of all it inherits from, each of them once. -/
def learn : Kind → Known → Known
  | mk n s bs, known =>
    if (known.lookup (mk n s bs)).isSome then known
    else
      let known := learnAll bs known
      (mk n s bs, mk n s bs :: ancestry (bs.map known.get) bs) :: known
def learnAll : List Kind → Known → Known
  | [], known => known
  | b :: bs, known => learnAll bs (learn b known)
end

/-- What is known later of a kind is what was known of it before, if anything was. -/
def Known.Extends (known before : Known) : Prop :=
  ∀ k, (before.lookup k).isSome → (known.lookup k).isSome

namespace Known

theorem get_of_sound {known : Known} {k : Kind} (h : known.Sound) (hk : (known.lookup k).isSome) :
    known.get k = k.unfolded := by
  obtain ⟨l, hl⟩ := Option.isSome_iff_exists.1 hk
  simp [get, hl, h k l hl]

theorem isSome_lookup_cons (known : Known) (e : Kind × List Kind) (k : Kind) :
    (List.lookup k (e :: known)).isSome = (k == e.1 || (known.lookup k).isSome) := by
  rw [List.lookup_cons]
  cases k == e.1 <;> rfl

end Known

mutual
theorem learn_sound : (k : Kind) → (known : Known) → known.Sound →
    (learn k known).Sound ∧ (learn k known).Extends known ∧ ((learn k known).lookup k).isSome
  | mk n s bs, known, h => by
    rw [learn]
    split
    · next hk => exact ⟨h, fun _ h => h, hk⟩
    · obtain ⟨hs, he, hb⟩ := learnAll_sound bs known h
      refine ⟨fun k l hl => ?_, fun k hk => ?_, ?_⟩
      · rw [List.lookup_cons] at hl
        split at hl
        · next e =>
          obtain rfl := eq_of_beq e
          obtain rfl := Option.some.inj hl
          rw [unfolded, unfoldedAll_eq_map]
          congr 2
          exact List.map_congr_left fun b hm => Known.get_of_sound hs (hb b hm)
        · exact hs k l hl
      · simp [Known.isSome_lookup_cons, he k hk]
      · simp
theorem learnAll_sound : (bs : List Kind) → (known : Known) → known.Sound →
    (learnAll bs known).Sound ∧ (learnAll bs known).Extends known ∧
      ∀ b ∈ bs, ((learnAll bs known).lookup b).isSome
  | [], _, h => ⟨h, fun _ h => h, fun _ h => by cases h⟩
  | b :: bs, known, h => by
    obtain ⟨hs, he, hb⟩ := learn_sound b known h
    obtain ⟨hs', he', hb'⟩ := learnAll_sound bs _ hs
    refine ⟨hs', fun k hk => he' k (he k hk), fun c hc => ?_⟩
    rcases List.mem_cons.1 hc with rfl | hc
    · exact he' c hb
    · exact hb' c hc
end

/-- The kind and all it inherits from, nearest first. -/
def lineage (k : Kind) : List Kind := (learn k []).get k

theorem lineage_eq_unfolded (k : Kind) : k.lineage = k.unfolded := by
  have h := learn_sound k [] fun _ _ h => by simp at h
  exact Known.get_of_sound h.1 h.2.2

theorem lineage_mk (n : String) (s : Nat) (bs : List Kind) :
    (mk n s bs).lineage = mk n s bs :: ancestry (bs.map lineage) bs := by
  simp only [lineage_eq_unfolded, unfolded, unfoldedAll_eq_map]
  congr 2
  exact List.map_congr_left fun b _ => (lineage_eq_unfolded b).symm

theorem self_mem_lineage (k : Kind) : k ∈ k.lineage :=
  lineage_eq_unfolded k ▸ self_mem_unfolded k

/-- A lineage holds the kind itself and the lineages of its bases. -/
theorem mem_lineage {k t : Kind} : t ∈ k.lineage ↔ t = k ∨ ∃ b ∈ k.bases, t ∈ b.lineage := by
  obtain ⟨n, s, bs⟩ := k
  rw [lineage_mk, List.mem_cons, mem_ancestry self_mem_lineage, bases]

mutual
theorem lineage_subset {t : Kind} : (k : Kind) → t ∈ k.lineage → t.lineage ⊆ k.lineage
  | mk n s bs, h => by
    rcases mem_lineage.1 h with rfl | ⟨b, hb, h⟩
    · exact fun _ h => h
    · exact fun u hu => mem_lineage.2 (.inr ⟨b, hb, lineage_subset_of_mem bs b hb h hu⟩)
theorem lineage_subset_of_mem {t : Kind} :
    (bs : List Kind) → (b : Kind) → b ∈ bs → t ∈ b.lineage → t.lineage ⊆ b.lineage
  | [], _, hb, _ => by cases hb
  | c :: cs, b, hb, h => by
    by_cases e : b = c
    · exact e ▸ lineage_subset c (e ▸ h)
    · exact lineage_subset_of_mem cs b ((List.mem_cons.1 hb).resolve_left e) h
end

/-- `k` is `t` or inherits from it. -/
def isA (k t : Kind) : Bool := k.lineage.contains t

@[simp] theorem isA_iff {k t : Kind} : k.isA t = true ↔ t ∈ k.lineage := by simp [isA]

theorem isA_refl (k : Kind) : k.isA k = true := isA_iff.2 (self_mem_lineage k)

theorem isA_trans {k t u : Kind} (h : k.isA t = true) (h' : t.isA u = true) : k.isA u = true :=
  isA_iff.2 (lineage_subset k (isA_iff.1 h) (isA_iff.1 h'))

/-- The value that the nearest kind of the lineage has in a table. -/
def nearest? {α : Type} (k : Kind) (table : List (Kind × α)) : Option α :=
  k.lineage.findSome? fun b => table.lookup b

theorem exists_of_nearest? {α : Type} {k : Kind} {table : List (Kind × α)} {a : α}
    (h : k.nearest? table = some a) : ∃ t, (t, a) ∈ table ∧ k.isA t = true := by
  obtain ⟨t, ht, hm⟩ := List.exists_of_findSome?_eq_some h
  obtain ⟨l₁, l₂, hl, -⟩ := List.lookup_eq_some_iff.1 hm
  exact ⟨t, by simp [hl], isA_iff.2 ht⟩

/-- A kind with the given bases, unless one is named twice or they cannot be put in order. -/
def derive? (name : String) (serial : Nat) (bases : List Kind) : Option Kind :=
  if bases.Nodup then
    (merge (bases.map lineage ++ [bases])).map fun _ => mk name serial bases
  else none

end Kind

end ParserAlgebra
