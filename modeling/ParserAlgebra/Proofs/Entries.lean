import Mathlib.Data.List.Induction
import Mathlib.Data.List.TakeWhile
import ParserAlgebra.Proofs.Scanning

/-!
# The grammar of assignments

`Entries` says which texts are lists of assignments, and which names and numbers they assign; it
cuts a text into its parts and does not say how they are found. Scanning finds them
(`entries_iff_scans`): a word ends only at a blank, so a text can be cut in one way.

`lastValues` says what the assignments come to without making them one by one
(`foldl_assign`).
-/

namespace ParserAlgebra.Assignment

/-- A word: characters of which none is blank. -/
def IsWord (w : List Char) : Prop := w ≠ [] ∧ ∀ x ∈ w, isBlank x = false

instance (w : List Char) : Decidable (IsWord w) :=
  @instDecidableAnd _ _ inferInstance (List.decidableBAll _ w)

def IsGap (g : List Char) : Prop := ∀ x ∈ g, isBlank x = true

instance (g : List Char) : Decidable (IsGap g) := List.decidableBAll _ g

/-- A list of assignments, each of them a name, the sign and a number. Blanks follow the name; they
may follow the sign, and they follow the number unless the text ends there. -/
inductive Entries : List Char → List (String × Int) → Prop
  | nil : Entries [] []
  | cons {name gap pad value tail rest : List Char} {n : Int} {pairs : List (String × Int)}
      (hname : IsWord name) (hgap : IsGap gap) (hsome : gap ≠ []) (hpad : IsGap pad)
      (hvalue : IsWord value) (hn : Numeral.read value = .ok n) (htail : IsGap tail)
      (hend : tail = [] → rest = []) (hrest : Entries rest pairs) :
      Entries (name ++ gap ++ '=' :: (pad ++ (value ++ tail ++ rest)))
        ((String.ofList name, n) :: pairs)

/-! ## Cutting a text -/

section Cut

variable {f : Char → Bool} {w l r : List Char}

/-- The first character, if there is one, is not of the class. -/
def Stops (f : Char → Bool) (l : List Char) : Prop := ∀ x ∈ l.head?, f x = false

theorem stops_dropWhile (f : Char → Bool) (l : List Char) : Stops f (l.dropWhile f) := by
  intro x hx
  have h := List.head?_dropWhile_not f l
  rw [Option.mem_def.1 hx] at h
  simpa using h

theorem takeWhile_append (hw : ∀ x ∈ w, f x = true) (hr : Stops f r) :
    (w ++ r).takeWhile f = w := by
  rw [List.takeWhile_append_of_pos hw]
  rcases r with _ | ⟨x, r⟩
  · simp
  · have hx : f x = false := hr x rfl
    simp [hx]

theorem dropWhile_append (hw : ∀ x ∈ w, f x = true) (hr : Stops f r) :
    (w ++ r).dropWhile f = r := by
  rw [List.dropWhile_append_of_pos hw]
  rcases r with _ | ⟨x, r⟩
  · rfl
  · have hx : f x = false := hr x rfl
    simp [hx]

theorem isWord_takeWhile (h : l.takeWhile (!isBlank ·) ≠ []) :
    IsWord (l.takeWhile (!isBlank ·)) := by
  refine ⟨h, fun x hx => ?_⟩
  simpa using List.mem_takeWhile_imp hx

theorem isGap_takeWhile (l : List Char) : IsGap (l.takeWhile isBlank) := fun _ hx =>
  List.mem_takeWhile_imp hx

theorem IsWord.inWord (hw : IsWord w) : ∀ x ∈ w, (!isBlank x) = true := fun x hx => by
  simp [hw.2 x hx]

/-- What follows a word begins with a blank, if it begins. -/
theorem IsGap.stops_append {g : List Char} (hg : IsGap g) (h : g = [] → r = []) :
    Stops (!isBlank ·) (g ++ r) := by
  rcases g with _ | ⟨y, g⟩
  · rw [h rfl]
    exact fun x hx => by cases hx
  · intro x hx
    obtain rfl : y = x := by simpa using hx
    simp [hg y (List.mem_cons_self ..)]

theorem IsWord.stops_append (hw : IsWord w) : Stops isBlank (w ++ r) := by
  rcases w with _ | ⟨y, w⟩
  · exact absurd rfl hw.1
  · intro x hx
    obtain rfl : y = x := by simpa using hx
    exact hw.2 y (List.mem_cons_self ..)

end Cut

/-! ## Scanning a text -/

/-- One assignment and what is left after it. -/
def scan (l : List Char) : Option ((String × Int) × List Char) :=
  match scanName l with
  | some (name, r) => (scanValue r).map fun (n, r) => ((String.ofList name, n), r)
  | none => none

/-- Scanning takes the assignments off a text, one after the other. -/
inductive Scans : List Char → List (String × Int) → List Char → Prop
  | nil (l : List Char) : Scans l [] l
  | cons {l r rest : List Char} {pair : String × Int} {pairs : List (String × Int)}
      (h : scan l = some (pair, r)) (hr : Scans r pairs rest) : Scans l (pair :: pairs) rest

theorem scanName_append {name gap pad r : List Char} (hname : IsWord name) (hgap : IsGap gap)
    (hsome : gap ≠ []) (hpad : IsGap pad) (hr : Stops isBlank r) :
    scanName (name ++ gap ++ '=' :: (pad ++ r)) = some (name, r) := by
  have hs : Stops (!isBlank ·) (gap ++ '=' :: (pad ++ r)) :=
    hgap.stops_append fun h => absurd h hsome
  have hsign : Stops isBlank ('=' :: (pad ++ r)) := by
    intro x hx
    obtain rfl : '=' = x := by simpa using hx
    decide
  obtain ⟨x, xs, rfl⟩ := List.exists_cons_of_ne_nil hname.1
  rw [scanName, List.append_assoc, takeWhile_append hname.inWord hs,
    dropWhile_append hname.inWord hs, dropWhile_append hgap hsign]
  simp only [dropWhile_append hpad hr]

theorem scanValue_append {value tail r : List Char} {n : Int} (hvalue : IsWord value)
    (hn : Numeral.read value = .ok n) (htail : IsGap tail) (hend : tail = [] → r = [])
    (hr : Stops isBlank r) : scanValue (value ++ tail ++ r) = some (n, r) := by
  have hs : Stops (!isBlank ·) (tail ++ r) := htail.stops_append hend
  obtain ⟨x, xs, rfl⟩ := List.exists_cons_of_ne_nil hvalue.1
  rw [scanValue, List.append_assoc, takeWhile_append hvalue.inWord hs,
    dropWhile_append hvalue.inWord hs, dropWhile_append htail hr]
  simp only [hn]

theorem Entries.stops {l : List Char} {pairs : List (String × Int)} (h : Entries l pairs) :
    Stops isBlank l := by
  rcases h with _ | ⟨hname, _⟩
  · exact fun x hx => by cases hx
  · rw [List.append_assoc]
    exact hname.stops_append

theorem Entries.scans {l : List Char} {pairs : List (String × Int)} (h : Entries l pairs) :
    Scans l pairs [] := by
  induction h with
  | nil => exact .nil []
  | @cons name gap pad value tail rest n pairs hname hgap hsome hpad hvalue hn htail hend hrest ih =>
    have hv : Stops isBlank (value ++ tail ++ rest) := by
      rw [List.append_assoc]
      exact hvalue.stops_append
    refine .cons ?_ ih
    have h₁ := scanName_append hname hgap hsome hpad hv
    have h₂ := scanValue_append hvalue hn htail hend hrest.stops
    simp only [scan, h₁, h₂, Option.map_some]

theorem exists_of_scanName {l name r : List Char} (h : scanName l = some (name, r)) :
    ∃ gap pad, l = name ++ gap ++ '=' :: (pad ++ r) ∧ IsWord name ∧ IsGap gap ∧ gap ≠ [] ∧
      IsGap pad := by
  obtain ⟨rfl, hne, r', hr', rfl⟩ := scanName_eq_some h
  have hcut : (l.dropWhile (!isBlank ·)).takeWhile isBlank ++ '=' :: r' =
      l.dropWhile (!isBlank ·) := by
    rw [← hr']
    exact List.takeWhile_append_dropWhile
  refine ⟨(l.dropWhile (!isBlank ·)).takeWhile isBlank, r'.takeWhile isBlank, ?_,
    isWord_takeWhile hne, isGap_takeWhile _, fun hgap => ?_, isGap_takeWhile _⟩
  · rw [List.takeWhile_append_dropWhile, List.append_assoc, hcut,
      List.takeWhile_append_dropWhile]
  · rw [hgap, List.nil_append] at hcut
    have hstop := stops_dropWhile (!isBlank ·) l '=' (by rw [← hcut]; rfl)
    exact absurd hstop (by decide)

theorem exists_of_scanValue {l r : List Char} {n : Int} (h : scanValue l = some (n, r)) :
    ∃ value tail, l = value ++ tail ++ r ∧ IsWord value ∧ Numeral.read value = .ok n ∧
      IsGap tail ∧ (tail = [] → r = []) ∧ Stops isBlank r := by
  obtain ⟨hne, hn, rfl⟩ := scanValue_eq_some h
  refine ⟨l.takeWhile (!isBlank ·), (l.dropWhile (!isBlank ·)).takeWhile isBlank, ?_,
    isWord_takeWhile hne, hn, isGap_takeWhile _, fun htail => ?_, stops_dropWhile _ _⟩
  · rw [List.append_assoc, List.takeWhile_append_dropWhile, List.takeWhile_append_dropWhile]
  · rcases hd : l.dropWhile (!isBlank ·) with _ | ⟨x, xs⟩
    · rfl
    · have hstop := stops_dropWhile (!isBlank ·) l x (by rw [hd]; rfl)
      have hx : isBlank x = true := by simpa using hstop
      rw [hd, List.takeWhile_cons_of_pos hx] at htail
      cases htail

theorem exists_of_scan {l r : List Char} {pair : String × Int} (h : scan l = some (pair, r)) :
    ∃ name r₁ n, scanName l = some (name, r₁) ∧ scanValue r₁ = some (n, r) ∧
      pair = (String.ofList name, n) := by
  unfold scan at h
  split at h
  · next name r₁ hname =>
    obtain ⟨⟨n, r₂⟩, hn, hp⟩ := Option.map_eq_some_iff.1 h
    obtain ⟨rfl, rfl⟩ := by simpa using hp
    exact ⟨name, r₁, n, hname, hn, rfl⟩
  · cases h

/-- An assignment is not empty. -/
theorem length_lt_of_scan {l r : List Char} {pair : String × Int} (h : scan l = some (pair, r)) :
    r.length < l.length := by
  obtain ⟨name, r₁, n, hname, hvalue, -⟩ := exists_of_scan h
  obtain ⟨gap, pad, rfl, -⟩ := exists_of_scanName hname
  obtain ⟨value, tail, rfl, -⟩ := exists_of_scanValue hvalue
  simp only [List.length_append, List.length_cons]
  omega

/-- What scanning takes off a text is a list of assignments. -/
theorem Scans.exists_entries {l rest : List Char} {pairs : List (String × Int)}
    (h : Scans l pairs rest) : ∃ taken, l = taken ++ rest ∧ Entries taken pairs := by
  induction h with
  | nil l => exact ⟨[], rfl, .nil⟩
  | cons h _ ih =>
    obtain ⟨taken, rfl, hentries⟩ := ih
    obtain ⟨name, r₁, n, hname, hvalue, rfl⟩ := exists_of_scan h
    obtain ⟨gap, pad, rfl, hw, hgap, hsome, hpad⟩ := exists_of_scanName hname
    obtain ⟨value, tail, rfl, hv, hn, htail, hend, -⟩ := exists_of_scanValue hvalue
    refine ⟨name ++ gap ++ '=' :: (pad ++ (value ++ tail ++ taken)), by simp,
      .cons hw hgap hsome hpad hv hn htail (fun hnil => ?_) hentries⟩
    exact (List.append_eq_nil_iff.1 (hend hnil)).1

/-- No blanks are left before what scanning leaves. -/
theorem Scans.stops {l rest : List Char} {pairs : List (String × Int)} (h : Scans l pairs rest)
    (hl : Stops isBlank l) : Stops isBlank rest := by
  induction h with
  | nil l => exact hl
  | cons h _ ih =>
    obtain ⟨name, r₁, n, -, hvalue, -⟩ := exists_of_scan h
    obtain ⟨value, tail, -, -, -, -, -, hr⟩ := exists_of_scanValue hvalue
    exact ih hr

/-- Scanning goes one way, to where there is no assignment any more. -/
theorem Scans.unique {l r r' : List Char} {ps ps' : List (String × Int)} (h : Scans l ps r)
    (hr : scan r = none) (h' : Scans l ps' r') (hr' : scan r' = none) : ps = ps' ∧ r = r' := by
  induction h generalizing ps' with
  | nil l =>
    rcases h' with _ | ⟨hs, _⟩
    · exact ⟨rfl, rfl⟩
    · rw [hr] at hs
      cases hs
  | cons hs _ ih =>
    rcases h' with _ | ⟨hs', h'⟩
    · rw [hr'] at hs
      cases hs
    · rw [hs] at hs'
      obtain ⟨rfl, rfl⟩ := by simpa using hs'
      obtain ⟨rfl, rfl⟩ := ih hr h'
      exact ⟨rfl, rfl⟩

/-- A text is a list of assignments exactly if scanning comes to its end. -/
theorem entries_iff_scans {l : List Char} {pairs : List (String × Int)} :
    Entries l pairs ↔ Scans l pairs [] := by
  refine ⟨Entries.scans, fun h => ?_⟩
  obtain ⟨taken, rfl, hentries⟩ := h.exists_entries
  rwa [List.append_nil]

/-! ## What the assignments come to -/

/-- The names in the order of their first assignments, each with the value of its last. -/
def lastValues (pairs : List (String × Int)) : List (String × Int) :=
  (pairs.map Prod.fst).eraseDups.filterMap fun name => (pairs.reverse.lookup name).map (name, ·)

theorem eraseDups_concat (names : List String) (name : String) :
    (names ++ [name]).eraseDups =
      if name ∈ names then names.eraseDups else names.eraseDups ++ [name] := by
  rw [List.eraseDups_append]
  by_cases h : name ∈ names <;> simp [List.removeAll, List.eraseDups_cons, h]

theorem nodup_eraseDups (names : List String) : names.eraseDups.Nodup := by
  induction names using List.reverseRecOn with
  | nil => simp
  | append_singleton names name ih =>
    rw [eraseDups_concat]
    split
    · exact ih
    · next h =>
      rw [List.nodup_append]
      refine ⟨ih, by simp, fun x hx y hy hxy => h ?_⟩
      rw [List.mem_singleton] at hy
      rw [← hy, ← hxy]
      exact List.mem_eraseDups.1 hx

/-- An assignment to a name, seen through the values of all names. -/
theorem assign_filterMap {f : String → Option Int} (name : String) (v : Int) {names : List String}
    (hd : names.Nodup) (hf : ∀ k ∈ names, (f k).isSome = true) :
    assign name v (names.filterMap fun k => (f k).map (k, ·)) =
      (if name ∈ names then names else names ++ [name]).filterMap
        fun k => (if k = name then some v else f k).map (k, ·) := by
  induction names with
  | nil => simp [assign]
  | cons k names ih =>
    obtain ⟨w, hw⟩ := Option.isSome_iff_exists.1 (hf k (List.mem_cons_self ..))
    obtain ⟨hk, hd⟩ := List.nodup_cons.1 hd
    have ih := ih hd fun j hj => hf j (List.mem_cons_of_mem _ hj)
    rw [List.filterMap_cons_some (b := (k, w)) (by simp [hw]), assign]
    by_cases h : k = name
    · subst h
      have hsame : names.filterMap (fun j => (f j).map (j, ·)) =
          names.filterMap fun j => (if j = k then some v else f j).map (j, ·) := by
        refine List.filterMap_congr fun j hj => ?_
        rw [if_neg fun h : j = k => hk (h ▸ hj)]
      simp [hsame]
    · have hiff : name ∈ k :: names ↔ name ∈ names := by simp [Ne.symm h]
      rw [if_neg h, ih]
      by_cases hm : name ∈ names <;> simp [hiff, hm, h, hw]

/-- Assigning the values one by one leaves the last value of each name. -/
theorem foldl_assign (pairs : List (String × Int)) :
    pairs.foldl (fun d (name, v) => assign name v d) [] = lastValues pairs := by
  induction pairs using List.reverseRecOn with
  | nil => rfl
  | append_singleton pairs pair ih =>
    obtain ⟨name, v⟩ := pair
    have hsome : ∀ k ∈ (pairs.map Prod.fst).eraseDups,
        (pairs.reverse.lookup k).isSome = true := by
      intro k hk
      obtain ⟨p, hp, rfl⟩ := List.mem_map.1 (List.mem_eraseDups.1 hk)
      exact List.lookup_isSome_iff.2 ⟨p, List.mem_reverse.2 hp, beq_self_eq_true _⟩
    have hlook (k : String) : (pairs ++ [(name, v)]).reverse.lookup k =
        if k = name then some v else pairs.reverse.lookup k := by
      have hb : (k == name) = decide (k = name) := rfl
      by_cases hk : k = name <;> simp [List.lookup_cons, hb, hk]
    rw [List.foldl_append, ih]
    simp only [List.foldl_cons, List.foldl_nil, lastValues]
    rw [assign_filterMap name v (nodup_eraseDups _) hsome, List.map_append, List.map_singleton,
      eraseDups_concat]
    simp only [hlook, List.mem_eraseDups]

end ParserAlgebra.Assignment
