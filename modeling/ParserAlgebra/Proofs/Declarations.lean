import ParserAlgebra.Assignment
import Mathlib.Data.List.Nodup
import Mathlib.Data.List.TakeWhile
import Mathlib.Logic.Function.Basic

/-!
# Declaring conversions, one after the other

A registry keeps a table of tables, but whatever is declared and taken back, it is one map from
pairs of kinds (`Conversion.refines_performAll`): a declaration writes its own pair, taking it back
removes that pair, and a table that is left empty is dropped. Nothing is declared out of Infallible.

A declaration that fails leaves the registry as it was, but not where a kind absorbs several others:
those that stand before the one that is refused stay declared (`Conversion.perform_of_refused`).
-/

namespace ParserAlgebra

variable {ω : Type}

namespace Table

variable {α : Type} {k l : Kind} {v : α} {t : Table α}

def Distinct (t : Table α) : Prop := (t.map Prod.fst).Nodup

theorem mem_keys_put : l ∈ (put k v t).map Prod.fst ↔ l = k ∨ l ∈ t.map Prod.fst := by
  induction t with
  | nil => simp [put]
  | cons e t ih =>
    obtain ⟨m, w⟩ := e
    by_cases hm : m = k
    · simp [put, hm]
    · rw [put, if_neg hm, List.map_cons, List.mem_cons, ih, List.map_cons, List.mem_cons]
      exact or_left_comm

theorem mem_of_mem_put {e : Kind × α} (h : e ∈ put k v t) : e = (k, v) ∨ e ∈ t := by
  induction t with
  | nil => exact .inl (List.mem_singleton.1 h)
  | cons d t ih =>
    obtain ⟨m, w⟩ := d
    by_cases hm : m = k
    · rw [put, if_pos hm] at h
      exact (List.mem_cons.1 h).imp_right (List.mem_cons_of_mem _)
    · rw [put, if_neg hm] at h
      rcases List.mem_cons.1 h with rfl | h
      · exact .inr List.mem_cons_self
      · exact (ih h).imp_right (List.mem_cons_of_mem _)

theorem Distinct.put (h : Distinct t) (k : Kind) (v : α) : Distinct (t.put k v) := by
  unfold Distinct at h ⊢
  induction t with
  | nil => exact List.nodup_singleton k
  | cons e t ih =>
    obtain ⟨m, w⟩ := e
    obtain ⟨hm, ht⟩ := List.nodup_cons.1 h
    by_cases hk : m = k
    · rw [Table.put, if_pos hk]
      exact hk ▸ h
    · rw [Table.put, if_neg hk]
      refine List.nodup_cons.2 ⟨fun hmem => ?_, ih ht⟩
      exact (mem_keys_put.1 hmem).elim hk hm

theorem Distinct.erase (h : Distinct t) (k : Kind) : Distinct (t.erase k) :=
  h.sublist (List.filter_sublist.map _)

theorem mem_iff_get? (h : Distinct t) : (k, v) ∈ t ↔ get? k t = some v := by
  induction t with
  | nil => simp
  | cons e t ih =>
    obtain ⟨m, w⟩ := e
    obtain ⟨hm, ht⟩ := List.nodup_cons.1 h
    rw [get?_cons, List.mem_cons, ih ht, Prod.mk.injEq]
    by_cases hk : k = m
    · subst hk
      have hnone : get? k t ≠ some v := fun hg => by
        have hmem : k ∈ t.map Prod.fst := List.mem_map_of_mem ((ih ht).2 hg)
        exact hm hmem
      simp [hnone, eq_comm]
    · simp [hk]

theorem put_of_get? (h : get? k t = some v) : put k v t = t := by
  induction t with
  | nil => simp at h
  | cons e t ih =>
    obtain ⟨m, w⟩ := e
    rw [get?_cons] at h
    by_cases hk : k = m
    · obtain rfl : w = v := by simpa [hk] using h
      simp [put, hk]
    · rw [put, if_neg (Ne.symm hk), ih (by simpa [hk] using h)]

theorem erase_of_get?_none (h : get? k t = none) : erase k t = t := by
  refine List.filter_eq_self.2 fun e he => ?_
  have hk : (k == e.1) = false := by simpa using List.lookup_eq_none_iff.1 h e he
  simpa using Ne.symm (ne_of_beq_false hk)

end Table

namespace Registry

variable {r : Registry ω} {s t : Kind} {c : Conversion ω}

/-- What holds of a registry in which only kinds were named. -/
structure Tidy (r : Registry ω) : Prop where
  sources : r.tables.Distinct
  targets : ∀ e ∈ r.tables, Table.Distinct e.2
  nonempty : ∀ e ∈ r.tables, e.2 ≠ []
  fallible : ∀ e ∈ r.tables, e.1.isInfallible = false
  strays : r.strays = []
  begun : r.begun = []

theorem tidy_empty : (empty : Registry ω).Tidy where
  sources := List.nodup_nil
  targets := by simp [empty]
  nonempty := by simp [empty]
  fallible := by simp [empty]
  strays := rfl
  begun := rfl

theorem Tidy.get?_eq_some (h : r.Tidy) :
    r.get? s t = some c ↔ ∃ table, (s, table) ∈ r.tables ∧ (t, c) ∈ table := by
  unfold get?
  rw [Option.bind_eq_some_iff]
  constructor
  · rintro ⟨table, hs, ht⟩
    have hmem : (s, table) ∈ r.tables := (Table.mem_iff_get? h.sources).2 hs
    exact ⟨table, hmem, (Table.mem_iff_get? (h.targets _ hmem)).2 ht⟩
  · rintro ⟨table, hs, ht⟩
    exact ⟨table, (Table.mem_iff_get? h.sources).1 hs, (Table.mem_iff_get? (h.targets _ hs)).1 ht⟩

theorem Tidy.mem_edges (h : r.Tidy) : (s, t) ∈ r.edges ↔ (r.get? s t).isSome = true := by
  rw [Option.isSome_iff_exists]
  simp only [h.get?_eq_some, edges, List.mem_flatMap, List.mem_map, Prod.mk.injEq]
  constructor
  · rintro ⟨⟨_, table⟩, hs, ⟨_, c⟩, ht, rfl, rfl⟩
    exact ⟨c, table, hs, ht⟩
  · rintro ⟨c, table, hs, ht⟩
    exact ⟨(s, table), hs, (t, c), ht, rfl, rfl⟩

theorem Tidy.nodup_edges (h : r.Tidy) : r.edges.Nodup := by
  refine List.nodup_flatMap.2 ⟨fun e he => ?_, ?_⟩
  · have hkeys : (e.2.map Prod.fst).Nodup := h.targets e he
    have hpairs := hkeys.map (f := fun k => (e.1, k)) fun _ _ hp => (Prod.mk.inj hp).2
    rwa [List.map_map] at hpairs
  · refine (List.pairwise_map.1 h.sources).imp fun hne => ?_
    intro p hp hq
    obtain ⟨_, -, rfl⟩ := List.mem_map.1 hp
    obtain ⟨_, -, hq⟩ := List.mem_map.1 hq
    exact hne (Prod.mk.inj hq).1.symm

theorem Tidy.settle (h : r.Tidy) (s : Kind) : r.settle s = r := by
  obtain ⟨tables, strays, begun⟩ := r
  obtain rfl : begun = [] := h.begun
  simp [Registry.settle]

theorem Tidy.insert (h : r.Tidy) (hs : s.isInfallible = false) : (r.insert s t c).Tidy := by
  have hold : Table.Distinct ((Table.get? s r.tables).getD []) := by
    rcases hg : Table.get? s r.tables with _ | table
    · exact List.nodup_nil
    · exact h.targets _ ((Table.mem_iff_get? h.sources).2 hg)
  refine ⟨h.sources.put _ _, fun e he => ?_, fun e he => ?_, fun e he => ?_, h.strays, h.begun⟩
  · rcases Table.mem_of_mem_put he with rfl | he
    · exact hold.put t c
    · exact h.targets e he
  · rcases Table.mem_of_mem_put he with rfl | he
    · intro hnil
      have hmem : t ∈ (Table.put t c ((Table.get? s r.tables).getD [])).map Prod.fst :=
        Table.mem_keys_put.2 (.inl rfl)
      rw [show Table.put t c ((Table.get? s r.tables).getD []) = [] from hnil] at hmem
      cases hmem
    · exact h.nonempty e he
  · rcases Table.mem_of_mem_put he with rfl | he
    · exact hs
    · exact h.fallible e he

theorem Tidy.erase (h : r.Tidy) (s t : Kind) : (r.erase s t).Tidy := by
  unfold Registry.erase
  split
  · exact h
  · next table hg =>
    have hmem : (s, table) ∈ r.tables := (Table.mem_iff_get? h.sources).2 hg
    have hkept : Table.Distinct (Table.erase t table) := (h.targets _ hmem).erase t
    split
    · -- The table was left empty and is dropped.
      have hsub : Table.erase s r.tables ⊆ r.tables := List.filter_subset_self _
      exact ⟨h.sources.erase s, fun e he => h.targets e (hsub he),
        fun e he => h.nonempty e (hsub he), fun e he => h.fallible e (hsub he), h.strays, h.begun⟩
    · next d rest hd =>
      refine ⟨h.sources.put _ _, fun e he => ?_, fun e he => ?_, fun e he => ?_, h.strays, h.begun⟩
      · rcases Table.mem_of_mem_put he with rfl | he
        · exact hd ▸ hkept
        · exact h.targets e he
      · rcases Table.mem_of_mem_put he with rfl | he
        · exact List.cons_ne_nil d rest
        · exact h.nonempty e he
      · rcases Table.mem_of_mem_put he with rfl | he
        · exact h.fallible (s, table) hmem
        · exact h.fallible e he

/-- Declaring again what is declared changes nothing. -/
theorem insert_of_get? (h : r.get? s t = some c) : r.insert s t c = r := by
  unfold get? at h
  obtain ⟨table, hs, ht⟩ := Option.bind_eq_some_iff.1 h
  unfold Registry.insert
  rw [hs, Option.getD_some, Table.put_of_get? ht, Table.put_of_get? hs]

/-- Taking back what is not declared changes nothing. -/
theorem Tidy.erase_of_get?_none (h : r.Tidy) (hn : r.get? s t = none) : r.erase s t = r := by
  unfold Registry.erase
  split
  · rfl
  · next table hg =>
    have ht : Table.get? t table = none := by simpa [get?, hg] using hn
    rw [Table.erase_of_get?_none ht]
    have hne : table ≠ [] := h.nonempty (s, table) ((Table.mem_iff_get? h.sources).2 hg)
    obtain ⟨d, rest, rfl⟩ := List.exists_cons_of_ne_nil hne
    dsimp only
    rw [Table.put_of_get? hg]

/-- One map from pairs of kinds. -/
abbrev Flat (ω : Type) := Kind × Kind → Option (Conversion ω)

def flat (r : Registry ω) : Flat ω := fun e => r.get? e.1 e.2

theorem flat_insert : (r.insert s t c).flat = Function.update r.flat (s, t) (some c) := by
  funext e
  rw [Function.update_apply]
  exact (r.get?_insert s t e.1 e.2 c).trans (by simp [Prod.ext_iff, flat])

theorem flat_erase : ((r.erase s t).settle s).flat = Function.update r.flat (s, t) none := by
  funext e
  rw [Function.update_apply]
  exact ((r.erase s t).get?_settle s e.1 e.2).trans
    ((r.get?_erase s t e.1 e.2).trans (by simp [Prod.ext_iff, flat]))

end Registry

namespace Conversion

variable [HostObject ω] {r : Registry ω}

/-- What is said about kinds: a conversion is declared, a kind absorbs others, or a conversion is
taken back. A conversion that decorates its function is declared like any other. -/
inductive Declaration (ω : Type) where
  | register (source target : Kind) (c : Conversion ω)
  | absorb (target : Kind) (sources : List Kind)
  | unregister (source target : Kind)

namespace Declaration

/-- The registry afterwards, and the fault with which the declaration fails. -/
def perform (r : Registry ω) : Declaration ω → Registry ω × Option Fault
  | register source target c =>
    match Conversion.register r (.kind source) (.kind target) c with
    | (r, .ok _) => (r, none)
    | (r, .error f) => (r, some f)
  | absorb target sources =>
    let (r, _, f) := Conversion.absorb r (.kind target) (sources.map .kind)
    (r, f)
  | unregister source target =>
    match Conversion.unregister r (.kind source) (.kind target) with
    | .ok r => (r, none)
    | .error f => (r, some f)

/-- A declaration out of Infallible, whatever else is declared with it. -/
def isRefused : Declaration ω → Bool
  | register source _ _ => source.isInfallible
  | absorb _ sources => sources.any Kind.isInfallible
  | unregister _ _ => false

/-- The conversions that are entered, as far as the first that is refused. -/
def entered : Declaration ω → List ((Kind × Kind) × Conversion ω)
  | register source target c => if source.isInfallible then [] else [((source, target), c)]
  | absorb target sources =>
    (sources.takeWhile fun s => !s.isInfallible).map fun s => ((s, target), .wrapping)
  | unregister _ _ => []

/-- The same on one map. -/
def write (m : Registry.Flat ω) (d : Declaration ω) : Registry.Flat ω :=
  match d with
  | unregister source target => Function.update m (source, target) none
  | d => d.entered.foldl (fun m e => Function.update m e.1 (some e.2)) m

end Declaration

def enter (r : Registry ω) (e : (Kind × Kind) × Conversion ω) : Registry ω :=
  r.insert e.1.1 e.1.2 e.2

theorem perform_register (r : Registry ω) (source target : Kind) (c : Conversion ω) :
    (Declaration.register source target c).perform r =
      if source.isInfallible then (r, some .infallibleSource)
      else (r.insert source target c, none) := by
  unfold Declaration.perform register
  cases h : source.isInfallible <;> simp [Declared.kind?, h]

theorem perform_absorb (target : Kind) (sources : List Kind) : ∀ r : Registry ω,
    (Declaration.absorb target sources).perform r =
      ((Declaration.absorb target sources).entered.foldl enter r,
        if sources.any Kind.isInfallible then some .infallibleSource else none) := by
  induction sources with
  | nil => intro r; rfl
  | cons source sources ih =>
    intro r
    rcases h : source.isInfallible with _ | _
    · have hrec := ih (r.insert source target .wrapping)
      simp only [Declaration.perform, Prod.mk.injEq] at hrec ⊢
      simp [absorb, register, Declared.kind?, h, hrec, Declaration.entered, enter]
    · simp [Declaration.perform, absorb, register, Declared.kind?, h, Declaration.entered]

theorem perform_unregister (r : Registry ω) (source target : Kind) :
    (Declaration.unregister source target).perform r =
      ((r.erase source target).settle source, none) := rfl

theorem fault_perform (r : Registry ω) (d : Declaration ω) :
    (d.perform r).2 = if d.isRefused then some .infallibleSource else none := by
  cases d with
  | register source target c =>
    rw [perform_register, Declaration.isRefused]
    split <;> rfl
  | absorb target sources => rw [perform_absorb, Declaration.isRefused]
  | unregister source target => rfl

/-- What fails has entered what stands before the fault. -/
theorem perform_of_isRefused (r : Registry ω) {d : Declaration ω} (h : d.isRefused = true) :
    (d.perform r).1 = d.entered.foldl enter r := by
  cases d with
  | register source target c =>
    have hs : source.isInfallible = true := h
    simp [perform_register, Declaration.entered, hs]
  | absorb target sources => rw [perform_absorb]
  | unregister source target => cases h

omit [HostObject ω] in
theorem fallible_of_mem_entered {d : Declaration ω} {e : (Kind × Kind) × Conversion ω}
    (h : e ∈ d.entered) : e.1.1.isInfallible = false := by
  cases d with
  | register source target c =>
    rcases hs : source.isInfallible with _ | _
    · simp only [Declaration.entered, hs, Bool.false_eq_true, if_false, List.mem_singleton] at h
      rw [h]
      exact hs
    · simp [Declaration.entered, hs] at h
  | absorb target sources =>
    obtain ⟨s, hs, rfl⟩ := List.mem_map.1 h
    simpa using List.mem_takeWhile_imp hs
  | unregister source target => cases h

omit [HostObject ω] in
theorem flat_foldl_enter (l : List ((Kind × Kind) × Conversion ω)) : ∀ r : Registry ω,
    (l.foldl enter r).flat =
      l.foldl (fun (m : Registry.Flat ω) e => Function.update m e.1 (some e.2)) r.flat := by
  induction l with
  | nil => exact fun _ => rfl
  | cons e l ih =>
    intro r
    rw [List.foldl_cons, List.foldl_cons, ih]
    congr 1
    exact Registry.flat_insert

omit [HostObject ω] in
theorem tidy_foldl_enter {l : List ((Kind × Kind) × Conversion ω)}
    (hl : ∀ e ∈ l, e.1.1.isInfallible = false) : ∀ {r : Registry ω}, r.Tidy →
      (l.foldl enter r).Tidy := by
  induction l with
  | nil => exact fun h => h
  | cons e l ih =>
    intro r h
    exact ih (fun e he => hl e (List.mem_cons_of_mem _ he)) (h.insert (hl e List.mem_cons_self))

/-! ## One step and a whole run -/

theorem flat_perform (r : Registry ω) (d : Declaration ω) :
    (d.perform r).1.flat = d.write r.flat := by
  cases d with
  | register source target c =>
    rw [perform_register]
    rcases hs : source.isInfallible with _ | _
    · simp [Declaration.write, Declaration.entered, hs, Registry.flat_insert]
    · simp [Declaration.write, Declaration.entered, hs]
  | absorb target sources =>
    rw [perform_absorb]
    exact flat_foldl_enter _ r
  | unregister source target => exact Registry.flat_erase

theorem tidy_perform (h : r.Tidy) (d : Declaration ω) : (d.perform r).1.Tidy := by
  cases d with
  | register source target c =>
    rw [perform_register]
    rcases hs : source.isInfallible with _ | _
    · exact h.insert hs
    · exact h
  | absorb target sources =>
    rw [perform_absorb]
    exact tidy_foldl_enter (fun e he => fallible_of_mem_entered he) h
  | unregister source target =>
    rw [perform_unregister, (h.erase source target).settle]
    exact h.erase source target

def performAll (r : Registry ω) (ds : List (Declaration ω)) : Registry ω :=
  ds.foldl (fun r d => (d.perform r).1) r

theorem flat_performAll (ds : List (Declaration ω)) : ∀ r : Registry ω,
    (performAll r ds).flat = ds.foldl Declaration.write r.flat := by
  induction ds with
  | nil => exact fun _ => rfl
  | cons d ds ih =>
    intro r
    exact (ih _).trans (congrArg (ds.foldl Declaration.write) (flat_perform r d))

theorem tidy_performAll (ds : List (Declaration ω)) : ∀ {r : Registry ω}, r.Tidy →
    (performAll r ds).Tidy := by
  induction ds with
  | nil => exact fun h => h
  | cons d ds ih => exact fun h => ih (tidy_perform h d)

/-- A registry of kinds is the map `m`. -/
structure Refines (r : Registry ω) (m : Registry.Flat ω) : Prop where
  get? : ∀ source target, r.get? source target = m (source, target)
  /-- Each pair stands in the registry once. -/
  edges : r.edges.Nodup ∧ ∀ e, e ∈ r.edges ↔ (m e).isSome = true
  nonempty : ∀ e ∈ r.tables, e.2 ≠ []
  fallible : ∀ e ∈ r.tables, e.1.isInfallible = false
  absent : ∀ source target, m (source, target) = none →
    (Declaration.unregister source target).perform r = (r, none)
  failed : ∀ d : Declaration ω,
    (d.perform r).2 = if d.isRefused then some .infallibleSource else none

/-- Whatever is declared and taken back, the registry is the map to which the same is done. -/
theorem refines_performAll (ds : List (Declaration ω)) :
    Refines (performAll .empty ds) (ds.foldl Declaration.write fun _ => none) := by
  have htidy : (performAll .empty ds).Tidy := tidy_performAll ds Registry.tidy_empty
  have hget (source target : Kind) : (performAll .empty ds).get? source target =
      ds.foldl Declaration.write (fun _ => none) (source, target) :=
    congrFun (flat_performAll ds .empty) (source, target)
  refine ⟨hget, ⟨htidy.nodup_edges, fun e => ?_⟩, htidy.nonempty, htidy.fallible,
    fun source target hm => ?_, fault_perform _⟩
  · rw [htidy.mem_edges, hget]
  · rw [perform_unregister, htidy.erase_of_get?_none ((hget source target).trans hm), htidy.settle]

/-! ## What a declaration leaves behind when it fails -/

omit [HostObject ω] in
theorem get?_foldl_enter {c : Conversion ω} {l : List ((Kind × Kind) × Conversion ω)}
    (hl : ∀ e ∈ l, e.2 = c) : ∀ {r : Registry ω} {source target : Kind},
      r.get? source target = some c ∨ ((source, target), c) ∈ l →
        (l.foldl enter r).get? source target = some c := by
  induction l with
  | nil => exact fun h => h.resolve_right List.not_mem_nil
  | cons e l ih =>
    intro r source target h
    refine ih (fun e he => hl e (List.mem_cons_of_mem _ he)) ?_
    obtain ⟨⟨s, t⟩, _⟩ := e
    obtain rfl : _ = c := hl _ List.mem_cons_self
    rw [enter, Registry.get?_insert]
    by_cases hst : source = s ∧ target = t
    · exact .inl (if_pos hst)
    · rw [if_neg hst]
      refine h.imp_right fun hmem => (List.mem_cons.1 hmem).resolve_left fun he => hst ?_
      simpa using he

omit [HostObject ω] in
theorem foldl_enter_eq_self {c : Conversion ω} {l : List ((Kind × Kind) × Conversion ω)}
    (hl : ∀ e ∈ l, e.2 = c) :
    l.foldl enter r = r ↔ ∀ e ∈ l, r.get? e.1.1 e.1.2 = some e.2 := by
  -- With other conversions a later pair could put back what an earlier one has overwritten.
  constructor
  · intro h e he
    rw [← h, hl e he]
    exact get?_foldl_enter hl (.inr (hl e he ▸ he))
  · intro h
    induction l with
    | nil => rfl
    | cons e l ih =>
      have hr : enter r e = r := Registry.insert_of_get? (h e List.mem_cons_self)
      rw [List.foldl_cons, hr]
      exact ih (fun e he => hl e (List.mem_cons_of_mem _ he))
        fun e he => h e (List.mem_cons_of_mem _ he)

omit [HostObject ω] in
theorem entered_absorb {target bad : Kind} {before after : List Kind}
    (hbefore : ∀ s ∈ before, s.isInfallible = false) (hbad : bad.isInfallible = true) :
    (Declaration.absorb (ω := ω) target (before ++ bad :: after)).entered =
      before.map fun s => ((s, target), .wrapping) := by
  rw [Declaration.entered, List.takeWhile_append_of_pos (by simpa using hbefore)]
  simp [hbad]

/-- A declaration that fails, and the registry that it leaves behind. -/
structure Failed (r : Registry ω) (d : Declaration ω) : Prop where
  fault : (d.perform r).2 = some .infallibleSource
  registered : ∀ source target c, d = .register source target c → (d.perform r).1 = r
  /-- What stands before the first that is refused is entered, the rest is not. -/
  absorbed : ∀ target sources, d = .absorb target sources →
    ∃ before bad after, sources = before ++ bad :: after ∧
      (∀ s ∈ before, s.isInfallible = false) ∧ bad.isInfallible = true ∧
      (d.perform r).1 = before.foldl (fun r s => r.insert s target .wrapping) r ∧
      ((d.perform r).1 = r ↔ ∀ s ∈ before, r.get? s target = some .wrapping)

/-- The registry is as it was, unless a kind absorbs several others: then only if all that stand
before the one that is refused were declared in the same way already. -/
theorem perform_of_refused (r : Registry ω) (d : Declaration ω) (f : Fault)
    (h : (d.perform r).2 = some f) : Failed r d := by
  have href : d.isRefused = true := by
    rw [fault_perform] at h
    exact (Option.ite_none_right_eq_some.1 h).1
  have hrun := perform_of_isRefused r href
  refine ⟨by rw [fault_perform, if_pos href], ?_, ?_⟩
  · rintro source target c rfl
    have hs : source.isInfallible = true := href
    rw [perform_register, if_pos hs]
  · rintro target sources rfl
    obtain ⟨bad, hfind⟩ := Option.isSome_iff_exists.1 (List.find?_isSome.2 (List.any_eq_true.1 href))
    obtain ⟨hbad, before, after, rfl, hbefore⟩ := List.find?_eq_some_iff_append.1 hfind
    have hfallible : ∀ s ∈ before, s.isInfallible = false := fun s hs => by simpa using hbefore s hs
    rw [entered_absorb hfallible hbad] at hrun
    refine ⟨before, bad, after, rfl, hfallible, hbad, ?_, ?_⟩
    · rw [hrun, List.foldl_map]
      rfl
    · rw [hrun, foldl_enter_eq_self (c := .wrapping) (by simp)]
      simp

/-- The assignments absorb what the engine reports, and then Infallible. -/
theorem perform_of_refused_assignment :
    let r : Registry Assignment.Function := Assignment.registry
    let d : Declaration Assignment.Function :=
      .absorb Assignment.failed [.wordError, .endOfInput, .infallible]
    (d.perform r).2 = some .infallibleSource ∧ Failed r d :=
  ⟨rfl, perform_of_refused _ _ .infallibleSource rfl⟩

/-- A union absorbs the error of a word, and then Infallible. That fails, but the error of a word
can be converted afterwards. -/
theorem absorb_leaves_trace :
    let union : Kind := .mk "T" 1 [.errorUnion]
    let d : Declaration Assignment.Function := .absorb union [.wordError, .infallible]
    (d.perform .empty).2 = some .infallibleSource ∧
      Registry.empty.canConvert (ω := Assignment.Function) (.kind .wordError) (.kind union) =
        .ok false ∧
      (d.perform .empty).1.canConvert (.kind .wordError) (.kind union) = .ok true :=
  ⟨rfl, rfl, rfl⟩

end Conversion

end ParserAlgebra
