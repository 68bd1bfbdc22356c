import ParserAlgebra.Proofs.Entries

/-!
# What is wrong where no assignment begins

A text that begins with no assignment has one of four flaws (`exists_flaw`). Each of them has its
error and its place, and reading an assignment there fails with the union around just this error, at
just this place (`Flaw.readOne_fails`).
-/

namespace ParserAlgebra.Assignment

/-- The flaw of a text that does not begin with an assignment: the error, and how many characters
come before the place where it is found. A missing name or value is found where it is due, a missing
sign behind the blanks after the name, and a word that is no number where it ends. -/
inductive Flaw : List Char → Value Function → Nat → Prop
  | name {l : List Char} (hl : Stops (!isBlank ·) l) : Flaw l noWord 0
  | sign {name gap rest : List Char} (hname : IsWord name) (hgap : IsGap gap)
      (hend : gap = [] → rest = []) (hrest : Stops isBlank rest)
      (hsign : rest.head? ≠ some '=') :
      Flaw (name ++ gap ++ rest) (noSign rest) (name ++ gap).length
  | value {name gap pad : List Char} (hname : IsWord name) (hgap : IsGap gap) (hsome : gap ≠ [])
      (hpad : IsGap pad) :
      Flaw (name ++ gap ++ '=' :: pad) noWord (name ++ gap ++ '=' :: pad).length
  | number {name gap pad value rest : List Char} {f : Fault} (hname : IsWord name)
      (hgap : IsGap gap) (hsome : gap ≠ []) (hpad : IsGap pad) (hvalue : IsWord value)
      (hrest : Stops (!isBlank ·) rest)
      (hf : (Value.str (String.ofList value) : Value Function).toInteger = .error f) :
      Flaw (name ++ gap ++ '=' :: (pad ++ (value ++ rest))) f.exception
        (name ++ gap ++ '=' :: (pad ++ value)).length

/-! ## A text without an assignment has a flaw -/

theorem stops_of_takeWhile_eq_nil {f : Char → Bool} {l : List Char} (h : l.takeWhile f = []) :
    Stops f l := by
  have hl : l.dropWhile f = l := by
    simpa [h] using List.takeWhile_append_dropWhile (p := f) (l := l)
  exact hl ▸ stops_dropWhile f l

/-- Every character is in a word or in a gap. -/
theorem eq_nil_of_stops {l : List Char} (hword : Stops (!isBlank ·) l) (hgap : Stops isBlank l) :
    l = [] := by
  rcases l with _ | ⟨x, l⟩
  · rfl
  · have h₁ := hword x rfl
    have h₂ := hgap x rfl
    simp [h₂] at h₁

theorem exists_flaw_of_scanName {l : List Char} (h : scanName l = none) :
    ∃ cause k, Flaw l cause k := by
  by_cases hname : l.takeWhile (!isBlank ·) = []
  · exact ⟨_, _, .name (stops_of_takeWhile_eq_nil hname)⟩
  · have hsign := (scanName_eq_none h).resolve_left hname
    set behind := l.dropWhile (!isBlank ·) with hbehind
    have hcut : l.takeWhile (!isBlank ·) ++ behind.takeWhile isBlank ++ behind.dropWhile isBlank =
        l := by
      rw [List.append_assoc, List.takeWhile_append_dropWhile, hbehind,
        List.takeWhile_append_dropWhile]
    have hend : behind.takeWhile isBlank = [] → behind.dropWhile isBlank = [] := fun hgap => by
      have hnil := eq_nil_of_stops (stops_dropWhile (!isBlank ·) l) (stops_of_takeWhile_eq_nil hgap)
      rw [← hbehind] at hnil
      rw [hnil, List.dropWhile_nil]
    have hne : (behind.dropWhile isBlank).head? ≠ some '=' := fun hhead => by
      obtain ⟨r, hr⟩ := List.head?_eq_some_iff.1 hhead
      exact hsign r hr
    have hflaw := Flaw.sign (isWord_takeWhile hname) (isGap_takeWhile behind) hend
      (stops_dropWhile _ _) hne
    exact ⟨_, _, hcut ▸ hflaw⟩

theorem exists_flaw {l : List Char} (h : scan l = none) : ∃ cause k, Flaw l cause k := by
  unfold scan at h
  rcases hname : scanName l with _ | ⟨name, r⟩
  · exact exists_flaw_of_scanName hname
  · have hvalue : scanValue r = none := by simpa [hname] using h
    have hr : Stops isBlank r := by
      obtain ⟨-, -, r', -, rfl⟩ := scanName_eq_some hname
      exact stops_dropWhile _ _
    obtain ⟨gap, pad, rfl, hword, hgap, hsome, hpad⟩ := exists_of_scanName hname
    by_cases hdue : r.takeWhile (!isBlank ·) = []
    · obtain rfl := eq_nil_of_stops (stops_of_takeWhile_eq_nil hdue) hr
      rw [List.append_nil]
      exact ⟨_, _, .value hword hgap hsome hpad⟩
    · obtain ⟨flaw, hflaw⟩ := (scanValue_eq_none hvalue).resolve_left hdue
      obtain ⟨said, hf⟩ := Value.toInteger_of_flaw (ω := Function)
        (s := String.ofList (r.takeWhile (!isBlank ·))) (by rwa [String.toList_ofList])
      rw [← List.takeWhile_append_dropWhile (p := (!isBlank ·)) (l := r)]
      exact ⟨_, _, .number hword hgap hsome hpad (isWord_takeWhile hdue) (stops_dropWhile _ _) hf⟩

/-! ## Places -/

section Places

variable {src w name gap pad r : List Char} {n : Nat}

theorem runEnd_eq {f : Char → Bool} (h : src.drop n = w ++ r) (hw : ∀ x ∈ w, f x = true)
    (hr : Stops f r) : runEnd f src n = n + w.length := by
  rw [runEnd, h, takeWhile_append hw hr]

theorem drop_of_append (h : src.drop n = w ++ r) : src.drop (n + w.length) = r := by
  rw [← List.drop_drop, h, List.drop_left]

theorem signPlace_eq (h : src.drop n = name ++ gap ++ r) (hname : IsWord name) (hgap : IsGap gap)
    (hend : gap = [] → r = []) (hr : Stops isBlank r) :
    signPlace src n = n + (name ++ gap).length := by
  rw [List.append_assoc] at h
  rw [signPlace, runEnd_eq h hname.inWord (hgap.stops_append hend),
    runEnd_eq (drop_of_append h) hgap hr, List.length_append, Nat.add_assoc]

theorem valuePlace_eq (h : src.drop n = name ++ gap ++ '=' :: (pad ++ r)) (hname : IsWord name)
    (hgap : IsGap gap) (hsome : gap ≠ []) (hpad : IsGap pad) (hr : Stops isBlank r) :
    valuePlace src n = n + (name ++ gap ++ '=' :: pad).length := by
  have hsign : Stops isBlank ('=' :: (pad ++ r)) := by
    intro x hx
    obtain rfl : '=' = x := by simpa using hx
    decide
  have hplace := signPlace_eq h hname hgap (fun hnil => absurd hnil hsome) hsign
  have hdrop : src.drop (n + (name ++ gap).length + 1) = pad ++ r := by
    rw [← List.drop_drop, drop_of_append h]
    rfl
  rw [valuePlace, hplace, runEnd_eq hdrop hpad hr]
  simp only [List.length_append, List.length_cons]
  omega

end Places

/-! ## Reading where there is a flaw -/

section Reading

variable {c : Context Function} {src : List Char} {n rounds depth : Nat} {cause : Value Function}
  {i : Nat} (hc : c.registry = registry)

include hc

theorem readOne_of_name_failed
    (h : FailsWith (host.callbacks rounds depth) c src namePart n cause i) :
    ∃ e m, Wraps e cause ∧ readOne (fun p => p.run (host.callbacks rounds depth)) c (place src n) =
      (.returned (.err e (.int i)), place src m) := by
  obtain ⟨e, m, hw, hrun⟩ := h
  exact ⟨e, m, hw, by simp [readOne, Action.bind_apply, name_returned hc, hrun]⟩

theorem readOne_of_value_failed {v : Value Function} {k : Nat}
    (hname : Takes (host.callbacks rounds depth) c src namePart n v k)
    (h : FailsWith (host.callbacks rounds depth) c src valuePart k cause i) :
    ∃ e m, Wraps e cause ∧ readOne (fun p => p.run (host.callbacks rounds depth)) c (place src n) =
      (.returned (.err e (.int i)), place src m) := by
  obtain ⟨e, m, hw, hrun⟩ := h
  unfold Takes at hname
  refine ⟨e, m, hw, ?_⟩
  simp [readOne, Action.bind_apply, name_returned hc, value_returned hc, hname, hrun]

omit hc in
/-- The parser of a name takes the name, the sign and the blanks after each of them. -/
theorem namePart_takes_cut {name gap pad r : List Char} {cb : Callbacks Function Unit}
    (h : src.drop n = name ++ gap ++ '=' :: (pad ++ r)) (hname : IsWord name) (hgap : IsGap gap)
    (hsome : gap ≠ []) (hpad : IsGap pad) (hr : Stops isBlank r) :
    ∃ v m, src.drop m = r ∧ m = n + (name ++ gap ++ '=' :: pad).length ∧
      Takes cb c src namePart n v m := by
  have hscan : scanName (src.drop n) = some (name, r) := by
    rw [h]
    exact scanName_append hname hgap hsome hpad hr
  obtain ⟨v, -, hm, hrun⟩ := namePart_takes hscan
  exact ⟨v, _, hm, valuePlace_eq h hname hgap hsome hpad hr, hrun⟩

/-- Reading an assignment where there is a flaw fails with the union around its error, at the place
where it is found. -/
theorem Flaw.readOne_fails {l : List Char} {k : Nat} (h : Flaw l cause k) (hl : src.drop n = l) :
    ∃ e m, Wraps e cause ∧ readOne (fun p => p.run (host.callbacks rounds depth)) c (place src n) =
      (.returned (.err e (.int (n + k : Nat))), place src m) := by
  cases h with
  | name hstop =>
    have hnil : (src.drop n).takeWhile (!isBlank ·) = [] := by
      rw [hl]
      exact takeWhile_append (w := []) (by simp) hstop
    exact readOne_of_name_failed hc (namePart_fails_of_nil hc hnil)
  | @sign name gap rest hname hgap hend hrest hsign =>
    have hplace := signPlace_eq hl hname hgap hend hrest
    have hword : (src.drop n).takeWhile (!isBlank ·) = name := by
      rw [hl, List.append_assoc]
      exact takeWhile_append hname.inWord (hgap.stops_append hend)
    have hdue : src.drop (signPlace src n) = rest := by rw [hplace, drop_of_append hl]
    have hfails : FailsWith (host.callbacks rounds depth) c src namePart n _ _ :=
      namePart_fails_of_ne hc (by rw [hword]; exact hname.1)
        fun r hr => hsign (by rw [← hdue, hr]; rfl)
    rw [hdue, hplace] at hfails
    exact readOne_of_name_failed hc hfails
  | @value name gap pad hname hgap hsome hpad =>
    rw [← List.append_nil pad] at hl
    obtain ⟨v, m, hm, rfl, htakes⟩ := namePart_takes_cut (c := c) hl hname hgap hsome hpad
      (fun x hx => by cases hx)
    exact readOne_of_value_failed hc htakes (valuePart_fails_of_nil hc (by rw [hm]; rfl))
  | @number name gap pad value rest f hname hgap hsome hpad hvalue hrest hf =>
    obtain ⟨v, m, hm, hplace, htakes⟩ := namePart_takes_cut (c := c) hl hname hgap hsome hpad
      hvalue.stops_append
    have hword : (src.drop m).takeWhile (!isBlank ·) = value := by
      rw [hm]
      exact takeWhile_append hvalue.inWord hrest
    have hfails : FailsWith (host.callbacks rounds depth) c src valuePart m f.exception _ :=
      valuePart_fails_of_fault hc (by rw [hword]; exact hvalue.1) (by rw [hword]; exact hf)
        (Value.kind_of_toInteger hf)
    have hend : runEnd (!isBlank ·) src m = n + (name ++ gap ++ '=' :: (pad ++ value)).length := by
      rw [runEnd_eq hm hvalue.inWord hrest, hplace]
      simp only [List.length_append, List.length_cons]
      omega
    rw [hend] at hfails
    exact readOne_of_value_failed hc htakes hfails

end Reading

end ParserAlgebra.Assignment
