import ParserAlgebra.Proofs.Grammar

/-!
# The first assignment that cannot be read

With a preview that is a number a text is always answered (`readAll_answers`). Unless it is a list of
assignments, the answer is the failure of one of its places: what stands before that place is read,
and what begins there has a flaw, whose error and place are reported (`Offence`).

The failure is found twice. The repetition meets it first and goes back to where that attempt began;
there the end of the text is not found, and the attempt is made once more. It fails as before, for
what is read at a place depends on nothing but the text behind it (`Flaw.readOne_fails`).
-/

namespace ParserAlgebra.Assignment

/-- The place `q` of a text at which the first assignment stands that cannot be read, the error `e`
that is reported, what it wraps, and the place that is reported with it. -/
structure Offence (settings : Settings Function) (text : String) (e cause : Value Function)
    (q pos : Nat) : Prop where
  kind_eq : e.kindOf = failed
  get_cause : e.get .cause = .ok cause
  begins : ∃ x, text.toList[q]? = some x ∧ isBlank x = false
  before : ∃ d, readAll settings (String.ofList (text.toList.take q)) = .returned (.ok d)
  again : ∀ rounds depth, (readOne (fun p => p.run (host.callbacks rounds depth))
    ⟨registry, settings, .warning⟩ (place text.toList q)).1 = .returned (.err e (.int pos))
  le_pos : q ≤ pos
  pos_le : pos ≤ text.length
  flaw : Flaw (text.toList.drop q) cause (pos - q)
  cause_is : (∃ m, cause = .takeError "=" m) ∨ cause.kindOf = .wordError ∨
    cause.kindOf = .valueError
  word_end : cause.kindOf = .wordError → pos = text.length
  number_end : cause.kindOf = .valueError → ∃ start word rest f, q ≤ start ∧
    text.toList.drop start = word ++ rest ∧ IsWord word ∧ Stops (!isBlank ·) rest ∧
    (Value.str (String.ofList word) : Value Function).toInteger = .error f ∧ cause = f.exception ∧
    pos = start + word.length

/-! ## What a flaw says of its error and its place -/

namespace Flaw

variable {src l : List Char} {cause : Value Function} {k q : Nat}

theorem le_length (h : Flaw l cause k) : k ≤ l.length := by
  cases h with
  | name => exact Nat.zero_le _
  | sign => simp
  | value => exact Nat.le_refl _
  | number =>
    simp only [List.length_append, List.length_cons]
    omega

theorem cause_is (h : Flaw l cause k) :
    (∃ m, cause = .takeError "=" m) ∨ cause.kindOf = .wordError ∨ cause.kindOf = .valueError := by
  cases h with
  | name => exact .inr (.inl rfl)
  | sign => exact .inl ⟨_, rfl⟩
  | value => exact .inr (.inl rfl)
  | number _ _ _ _ _ _ hf => exact .inr (.inr (Value.kind_of_toInteger hf))

/-- Where a name begins, no other name is missed, so a word is missed at the end only. -/
theorem word_end (h : Flaw l cause k) (hl : Stops isBlank l) (hk : cause.kindOf = .wordError) :
    k = l.length := by
  cases h with
  | name hstop =>
    rw [eq_nil_of_stops hstop hl]
    rfl
  | sign =>
    have ht : Kind.takeError = .wordError := hk
    exact absurd ht (by decide)
  | value => rfl
  | number _ _ _ _ _ _ hf =>
    have hv : Kind.valueError = .wordError := (Value.kind_of_toInteger hf).symm.trans hk
    exact absurd hv (by decide)

theorem number_end (h : Flaw (src.drop q) cause k) (hk : cause.kindOf = .valueError) :
    ∃ start word rest f, q ≤ start ∧ src.drop start = word ++ rest ∧ IsWord word ∧
      Stops (!isBlank ·) rest ∧
      (Value.str (String.ofList word) : Value Function).toInteger = .error f ∧
      cause = f.exception ∧ q + k = start + word.length := by
  generalize hl : src.drop q = l at h
  cases h with
  | name => exact absurd hk (by decide)
  | sign =>
    have ht : Kind.takeError = .valueError := hk
    exact absurd ht (by decide)
  | value => exact absurd hk (by decide)
  | @number name gap pad value rest f hname hgap hsome hpad hvalue hrest hf =>
    have hcut : src.drop q = (name ++ gap ++ '=' :: pad) ++ (value ++ rest) := by
      rw [hl]
      simp
    refine ⟨_, value, rest, f, Nat.le_add_right _ _, drop_of_append hcut, hvalue, hrest, hf, rfl, ?_⟩
    simp only [List.length_append, List.length_cons]
    omega

end Flaw

/-! ## Behind the assignments that were taken off -/

section Ending

variable {c : Context Function} {src : List Char} {n k rounds depth : Nat}
  {cause : Value Function} {preview : Int}

/-- Behind the assignments the attempt that failed is made again, and fails with the flaw. -/
theorem ending_of_flaw (hc : c.registry = registry)
    (hpreview : c.settings.tracePreview.toInt? = some preview) (hne : src.drop n ≠ [])
    (hflaw : Flaw (src.drop n) cause k) (items : List (Value Function)) :
    ∃ e, Wraps e cause ∧ (ending (host.callbacks rounds depth) items c (place src n)).1 =
      .returned (.failed (.err e (.int (n + k : Nat)))) := by
  obtain ⟨e, m, hw, hrun⟩ : ∃ e m, Wraps e cause ∧ readOne
      (fun p => p.run (host.callbacks rounds depth)) c (place src n) = _ := hflaw.readOne_fails hc rfl
  obtain ⟨e', i, heof⟩ | ⟨hnone, -⟩ : (∃ e i, Parser.eof.run (host.callbacks rounds depth) c
      (place src n) = _) ∨ _ := run_eof_of_ne hne
  · exact ⟨e, hw, by simp [ending, Action.bind_apply, heof, hrun]⟩
  · rw [hpreview] at hnone
    cases hnone

end Ending

theorem exists_begins {l : List Char} {q : Nat} (hne : l.drop q ≠ [])
    (hstop : Stops isBlank (l.drop q)) : ∃ x, l[q]? = some x ∧ isBlank x = false := by
  obtain ⟨x, r, hx⟩ := List.exists_cons_of_ne_nil hne
  refine ⟨x, ?_, hstop x (by rw [hx]; rfl)⟩
  rw [← List.head?_drop, hx]
  rfl

/-- With a preview that is a number, reading a text of assignments gives each name its last value,
and of every other text it reports the first assignment that cannot be read. -/
theorem readAll_answers (settings : Settings Function) {preview : Int}
    (hpreview : settings.tracePreview.toInt? = some preview) (text : String) :
    (∃ lead rest pairs, text.toList = lead ++ rest ∧ IsGap lead ∧ Entries rest pairs ∧
      readAll settings text = .returned (.ok (lastValues pairs))) ∨
    ∃ e cause q pos, readAll settings text = .returned (.failed (.err e (.int (pos : Nat)))) ∧
      Offence settings text e cause q pos := by
  let c : Context Function := ⟨registry, settings, .warning⟩
  have hlen : text.toList.length < text.length + 1 := by
    rw [String.length_toList]
    exact Nat.lt_succ_self _
  obtain ⟨pairs, q, hscan, hstop, hread⟩ := read_eq_ending (c := c) rfl 0 hlen
  obtain ⟨taken, htaken, hentries⟩ := hscan.exists_entries
  have hcut : text.toList = text.toList.takeWhile isBlank ++ (taken ++ text.toList.drop q) := by
    rw [← htaken, List.takeWhile_append_dropWhile]
  by_cases hne : text.toList.drop q = []
  · rw [hne, List.append_nil] at hcut
    exact .inl ⟨_, _, _, hcut, isGap_takeWhile _, hentries,
      readAll_of_entries settings hcut (isGap_takeWhile _) hentries⟩
  obtain ⟨cause, k, hflaw⟩ := exists_flaw hstop
  obtain ⟨e, hw, hend⟩ := ending_of_flaw (c := c) rfl hpreview hne hflaw (pairs.map item)
  have hstops : Stops isBlank (text.toList.drop q) := hscan.stops (stops_dropWhile _ _)
  have hle : q + k ≤ text.length := by
    have hk := hflaw.le_length
    have hq : q < text.toList.length := by
      simpa [List.drop_eq_nil_iff] using hne
    rw [List.length_drop] at hk
    rw [← String.length_toList]
    omega
  have hbefore : text.toList.take q = text.toList.takeWhile isBlank ++ taken := by
    have htake := List.take_append_drop q text.toList
    conv_rhs at htake => rw [hcut, ← List.append_assoc]
    exact List.append_cancel_right htake
  refine .inr ⟨e, cause, q, q + k, (congrArg Prod.fst hread).trans hend, ?_⟩
  exact {
    kind_eq := hw.kindOf_eq
    get_cause := hw.get_cause
    begins := exists_begins hne hstops
    before := ⟨_, readAll_of_entries settings (by rw [String.toList_ofList, hbefore])
      (isGap_takeWhile _) hentries⟩
    again := fun rounds depth => by
      obtain ⟨e', m, hw', hrun⟩ : ∃ e m, Wraps e cause ∧ readOne
          (fun p => p.run (host.callbacks rounds depth)) c (place text.toList q) = _ :=
        hflaw.readOne_fails rfl rfl
      rw [hw.unique hw']
      exact congrArg Prod.fst hrun
    le_pos := Nat.le_add_right _ _
    pos_le := hle
    flaw := by rwa [Nat.add_sub_cancel_left]
    cause_is := hflaw.cause_is
    word_end := fun hk => by
      have hkl := hflaw.word_end hstops hk
      have hq : q < text.toList.length := by simpa [List.drop_eq_nil_iff] using hne
      rw [hkl, List.length_drop, ← String.length_toList]
      omega
    number_end := hflaw.number_end }

/-- The place at which a failure is reported. -/
def reported? : Answer Function Result → Option Int
  | .returned (.failed (.err _ (.int pos))) => some pos
  | _ => none

theorem readAll_answers_second_value :
    (({} : Settings Function).tracePreview.toInt? = some 30) ∧
      ∃ e cause q, readAll {} "x = 1 y = z" = .returned (.failed (.err e (.int (11 : Nat)))) ∧
        Offence {} "x = 1 y = z" e cause q 11 := by
  refine ⟨rfl, ?_⟩
  have htold : reported? (readAll {} "x = 1 y = z") = some 11 := by decide +kernel
  obtain ⟨_, _, _, -, -, -, h⟩ | ⟨e, cause, q, pos, h, hoff⟩ :=
    readAll_answers {} rfl "x = 1 y = z"
  · rw [h] at htold
    cases htold
  · rw [h] at htold
    obtain rfl : pos = 11 := Int.ofNat_inj.1 (Option.some.inj htold)
    exact ⟨e, cause, q, h, hoff⟩

end ParserAlgebra.Assignment
