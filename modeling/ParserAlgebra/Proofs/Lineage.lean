import ParserAlgebra.Kind.Basic

/-!
# The order of a lineage

A kind that can be made of its bases stands before the merge of their lineages, and a merge keeps
the order of each list and holds nothing twice. So the lineage of such a kind is the kind and then
that merge, also where a single base hands its lineage on (`Kind.Derived.merge_eq`), and it holds
the lineages of all it inherits from in their own order (`Kind.Derived.sublist`).
-/

namespace ParserAlgebra.Kind

/-- The kinds that can be made, of bases that can be made. -/
inductive Derived : Kind → Prop
  | mk {name : String} {serial : Nat} {bases : List Kind} {k : Kind}
      (hbases : ∀ b ∈ bases, Derived b) (h : derive? name serial bases = some k) : Derived k

/-! ## Merging -/

variable {k : Kind} {lists : List (List Kind)} {merged : List Kind} {n : Nat}

theorem not_mem_tail_of_pick? (h : pick? lists = some k) : ∀ l ∈ lists, k ∉ l.tail := by
  intro l hl
  have hall := List.find?_some h
  simp only [List.all_eq_true] at hall
  simpa using hall l hl

/-- What is taken off the lists it heads is in none of them any more. -/
theorem not_mem_flatten_of_pick? (h : pick? lists = some k) :
    k ∉ (lists.map fun l => if l.head? = some k then l.tail else l).flatten := by
  intro hk
  obtain ⟨l', hl', hk⟩ := List.mem_flatten.1 hk
  obtain ⟨l, hl, rfl⟩ := List.mem_map.1 hl'
  have htail := not_mem_tail_of_pick? h l hl
  split at hk
  · exact htail hk
  · next hhead =>
    rcases l with _ | ⟨a, l⟩
    · cases hk
    · rcases List.mem_cons.1 hk with rfl | hk
      · exact hhead rfl
      · exact htail hk

theorem mergeWithin_succ (h : mergeWithin (n + 1) lists = some merged) :
    (merged = [] ∧ ∀ l ∈ lists, l = []) ∨
      ∃ k rest, pick? lists = some k ∧ merged = k :: rest ∧
        mergeWithin n (lists.map fun l => if l.head? = some k then l.tail else l) =
          some rest := by
  rw [mergeWithin] at h
  split at h
  · next he =>
    refine .inl ⟨(Option.some.inj h).symm, fun l hl => ?_⟩
    simpa using List.all_eq_true.1 he l hl
  · obtain ⟨k, hk, h⟩ := Option.bind_eq_some_iff.1 h
    obtain ⟨rest, hr, h⟩ := Option.bind_eq_some_iff.1 h
    exact .inr ⟨k, rest, hk, (Option.some.inj h).symm, hr⟩

theorem mergeWithin_zero (h : mergeWithin 0 lists = some merged) :
    merged = [] ∧ ∀ l ∈ lists, l = [] := by
  simp only [mergeWithin, Option.ite_none_right_eq_some, Option.some.injEq] at h
  refine ⟨h.2.symm, fun l hl => ?_⟩
  simpa using List.all_eq_true.1 h.1 l hl

theorem nodup_of_mergeWithin : ∀ {n : Nat} {lists : List (List Kind)} {merged : List Kind},
    mergeWithin n lists = some merged → merged.Nodup
  | 0, lists, merged, h => by
    rw [(mergeWithin_zero h).1]
    exact List.nodup_nil
  | n + 1, lists, merged, h => by
    rcases mergeWithin_succ h with ⟨rfl, -⟩ | ⟨k, rest, hk, rfl, hr⟩
    · exact List.nodup_nil
    · refine List.nodup_cons.2 ⟨fun hm => ?_, nodup_of_mergeWithin hr⟩
      exact not_mem_flatten_of_pick? hk ((mem_of_mergeWithin hr).1 hm)

theorem sublist_of_mergeWithin : ∀ {n : Nat} {lists : List (List Kind)} {merged l : List Kind},
    mergeWithin n lists = some merged → l ∈ lists → l.Sublist merged
  | 0, lists, merged, l, h, hl => by
    rw [(mergeWithin_zero h).2 l hl]
    exact List.nil_sublist _
  | n + 1, lists, merged, l, h, hl => by
    rcases mergeWithin_succ h with ⟨-, he⟩ | ⟨k, rest, -, rfl, hr⟩
    · rw [he l hl]
      exact List.nil_sublist _
    · have hrest := sublist_of_mergeWithin hr (List.mem_map_of_mem hl)
      split at hrest
      · next hhead =>
        obtain ⟨l, rfl⟩ := List.head?_eq_some_iff.1 hhead
        exact hrest.cons_cons k
      · exact hrest.cons k

theorem pick?_cons_nil {l : List Kind} (h : k ∉ l) : pick? [k :: l, []] = some k := by
  simp [pick?, h]

theorem mergeWithin_nil : ∀ {l : List Kind} {n : Nat}, l.Nodup → l.length ≤ n →
    mergeWithin n [l, []] = some l
  | [], n, _, _ => by cases n <;> simp [mergeWithin]
  | k :: l, n, hl, hn => by
    obtain ⟨n, rfl⟩ : ∃ m, n = m + 1 := ⟨n - 1, by simp at hn; omega⟩
    obtain ⟨hk, hl⟩ := List.nodup_cons.1 hl
    have hrec := mergeWithin_nil (n := n) hl (by simpa using hn)
    rw [mergeWithin, if_neg (by simp), pick?_cons_nil hk]
    simp [hrec]

/-- Merging the lineage of a single base with the list of that base gives the lineage. -/
theorem merge_single {b : Kind} {l : List Kind} (h : (b :: l).Nodup) :
    merge [b :: l, [b]] = some (b :: l) := by
  obtain ⟨hb, hl⟩ := List.nodup_cons.1 h
  have hpick : pick? [b :: l, [b]] = some b := by simp [pick?, hb]
  have hrec : mergeWithin (l.length + 1) [l, []] = some l := mergeWithin_nil hl (by omega)
  have hlen : [b :: l, [b]].flatten.length = l.length + 1 + 1 := by simp
  rw [merge, hlen, mergeWithin, if_neg (by simp), hpick]
  simp [hrec]

/-! ## The lineages of kinds that can be made -/

/-- The ancestry of bases is the merge, whether it was worked out or handed on. -/
theorem ancestry_of_merge {bases m : List Kind} (hm : merge (bases.map lineage ++ [bases]) = some m)
    (hnodup : ∀ b ∈ bases, b.lineage.Nodup) : ancestry (bases.map lineage) bases = m := by
  match bases, hm, hnodup with
  | [b], hm, hnodup =>
    have hb := hnodup b (List.mem_singleton_self b)
    obtain ⟨name, serial, bases⟩ := b
    rw [List.map_singleton, List.singleton_append, lineage_mk] at hm
    rw [List.map_singleton, ancestry, lineage_mk]
    rw [lineage_mk] at hb
    exact Option.some.inj ((merge_single hb).symm.trans hm)
  | [], hm, _ =>
    rw [ancestry, hm, Option.getD_some]
    simp
  | b :: b' :: bases, hm, _ =>
    rw [ancestry, hm, Option.getD_some]
    simp

theorem derive?_eq_some {name : String} {serial : Nat} {bases : List Kind} :
    derive? name serial bases = some k ↔
      k = .mk name serial bases ∧ bases.Nodup ∧
        ∃ m, merge (bases.map lineage ++ [bases]) = some m := by
  unfold derive?
  split
  · next hn =>
    rw [Option.map_eq_some_iff]
    constructor
    · rintro ⟨m, hm, rfl⟩
      exact ⟨rfl, hn, m, hm⟩
    · rintro ⟨rfl, -, m, hm⟩
      exact ⟨m, hm, rfl⟩
  · next hn => simp [hn]

theorem sizeOf_lt_of_mem_bases {b : Kind} (h : b ∈ k.bases) : sizeOf b < sizeOf k := by
  obtain ⟨n, s, bs⟩ := k
  have hb : sizeOf b < sizeOf bs := List.sizeOf_lt_of_mem h
  simp only [mk.sizeOf_spec]
  omega

theorem sizeOf_le_of_mem_lineage {k t : Kind} (h : t ∈ k.lineage) : sizeOf t ≤ sizeOf k := by
  rcases mem_lineage.1 h with rfl | ⟨b, hb, ht⟩
  · exact Nat.le_refl _
  · have hlt := sizeOf_lt_of_mem_bases hb
    have hle := sizeOf_le_of_mem_lineage ht
    omega
termination_by sizeOf k

namespace Derived

theorem nodup (h : Derived k) : k.lineage.Nodup := by
  induction h with
  | @mk name serial bases k _ h ih =>
    obtain ⟨rfl, -, m, hm⟩ := derive?_eq_some.1 h
    rw [lineage_mk]
    refine List.nodup_cons.2 ⟨fun hmem => ?_, ?_⟩
    · -- a kind is no ancestor of itself: its bases are smaller
      obtain ⟨b, hb, hk⟩ := (mem_ancestry self_mem_lineage bases).1 hmem
      have hlt := sizeOf_lt_of_mem_bases (k := .mk name serial bases) hb
      have hle := sizeOf_le_of_mem_lineage hk
      omega
    · rw [ancestry_of_merge hm ih]
      exact nodup_of_mergeWithin hm

/-- The lineage of a kind that can be made is the kind and then the merge of the lineages of its
bases with the list of the bases. -/
theorem merge_eq (h : Derived k) :
    ∃ m, merge (k.bases.map lineage ++ [k.bases]) = some m ∧ k.lineage = k :: m := by
  cases h with
  | @mk name serial bases _ hbases h =>
    obtain ⟨rfl, -, m, hm⟩ := derive?_eq_some.1 h
    refine ⟨m, hm, ?_⟩
    rw [lineage_mk, ancestry_of_merge hm fun b hb => (hbases b hb).nodup]

/-- All that a kind inherits from keeps its order in the lineage. -/
theorem sublist {t : Kind} (h : Derived k) (ht : k.isA t = true) : t.lineage.Sublist k.lineage := by
  induction h with
  | @mk name serial bases k hbases h ih =>
    have hk : Derived k := .mk hbases h
    obtain ⟨m, hm, hl⟩ := hk.merge_eq
    obtain ⟨rfl, -, -⟩ := derive?_eq_some.1 h
    rcases mem_lineage.1 (isA_iff.1 ht) with rfl | ⟨b, hb, ht⟩
    · exact List.Sublist.refl _
    · have hmem : b.lineage ∈ bases.map lineage ++ [bases] :=
        List.mem_append_left _ (List.mem_map_of_mem hb)
      rw [hl]
      exact ((ih b hb (isA_iff.2 ht)).trans (sublist_of_mergeWithin hm hmem)).cons _

end Derived

end ParserAlgebra.Kind
