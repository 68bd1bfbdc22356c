import ParserAlgebra.Proofs.Flaws

/-!
# Reading accepts exactly its grammar

Reading takes the assignments off the text as scanning does (`repeated_scans`). Each of them is
longer than nothing, so there are rounds enough and no progress has to be checked. Where there is no
assignment the cursor is put back; if the text is not at its end, the assignment that cannot be read
is read once more and fails again. So a text is read exactly if it is a list of assignments behind
blanks, and then each name has its last value (`readAll_eq_ok_iff`).
-/

namespace ParserAlgebra.Assignment

variable {c : Context Function} {src : List Char} {n m rounds depth : Nat}

/-- The value that an assignment is read as. -/
def item (pair : String × Int) : Value Function := .tuple [.str pair.1, .int pair.2]

/-- The parser that `several` repeats. -/
def onePart : Parser Function := .function "Assignment" (.kind failed) .assignment

/-- What `several` repeats. -/
def body (rounds depth : Nat) : Act (Outcome Function) :=
  onePart.run (host.callbacks rounds (depth + 1))

/-- What reading comes to behind the assignments that were taken off. -/
def ending (cb : Callbacks Function Unit) (items : List (Value Function)) : Act Result := do
  if ← (← Parser.eof.run cb).succeeded then return .ok (collect items)
  else
    let res ← readOne fun p => p.run cb
    if ← res.succeeded then return .single (← res.value) else return .failed res

section Eof

variable {cb : Callbacks Function Unit}

theorem run_eof (h : src.drop n = []) :
    Parser.eof.run cb c (place src n) = (.returned (.ok .none), place src n) :=
  Parser.run_eof_of_atEnd (decide_eq_true (List.drop_eq_nil_iff.1 h))

/-- Only a preview that is no number keeps the input that is left from being told. -/
theorem toInt?_of_leftover {settings : Settings Function} {d : Cursor Function} {f : Fault}
    (h : Preview.leftover settings d = .error f) : settings.tracePreview.toInt? = none := by
  rcases hk : settings.tracePreview.toInt? with _ | k
  · rfl
  · have hend : ∃ stop, previewEnd? settings.tracePreview d.remaining = .ok stop := by
      unfold previewEnd?
      split
      · exact ⟨_, rfl⟩
      · rw [hk]
        exact ⟨_, rfl⟩
    obtain ⟨stop, hstop⟩ := hend
    rw [Preview.leftover, hstop] at h
    cases h

/-- Before the end of the text its end is not found, or cannot be told of because the preview is no
number. -/
theorem run_eof_of_ne (h : src.drop n ≠ []) :
    (∃ e i, Parser.eof.run cb c (place src n) = (.returned (.err e (.int i)), place src n)) ∨
      c.settings.tracePreview.toInt? = none ∧
        ∃ e, Parser.eof.run cb c (place src n) = (.raised e, place src n) := by
  have hend : ¬ (place src n).cursor.atEnd = true := fun hend =>
    h (List.drop_eq_nil_iff.2 (of_decide_eq_true hend))
  rw [Parser.run_eof_of_not_atEnd hend]
  rcases hfound : Preview.leftover c.settings (place src n).cursor with f | found
  · exact .inr ⟨toInt?_of_leftover hfound, _, rfl⟩
  · exact .inl ⟨_, _, rfl⟩

end Eof

section ReadOne

variable (hc : c.registry = registry)

include hc

theorem readOne_of_scan {pair : String × Int} {r : List Char}
    (h : scan (src.drop n) = some (pair, r)) :
    ∃ m, src.drop m = r ∧ readOne (fun p => p.run (host.callbacks rounds depth)) c (place src n) =
      (.returned (.ok (item pair)), place src m) := by
  obtain ⟨name, r₁, k, hname, hvalue, rfl⟩ := exists_of_scan h
  obtain ⟨v, hv, hplace, h₁⟩ : ∃ v, spanText v = _ ∧ _ ∧
      Takes (host.callbacks rounds depth) c src namePart n v _ := namePart_takes hname
  rw [← hplace] at hvalue
  obtain ⟨m, hm, h₂⟩ : ∃ m, _ ∧ Takes (host.callbacks rounds depth) c src valuePart
      (valuePlace src n) (.int k) m := valuePart_takes hvalue
  refine ⟨m, hm, ?_⟩
  unfold Takes at h₁ h₂
  simp [readOne, Action.bind_apply, name_returned hc, value_returned hc, h₁, h₂, hv, item]

theorem readOne_of_not_scan (h : scan (src.drop n) = none) :
    ∃ e i m, readOne (fun p => p.run (host.callbacks rounds depth)) c (place src n) =
      (.returned (.err e (.int i)), place src m) := by
  obtain ⟨cause, k, hflaw⟩ := exists_flaw h
  obtain ⟨e, m, -, hrun⟩ : ∃ e m, _ ∧ readOne (fun p => p.run (host.callbacks rounds depth)) c
      (place src n) = _ := hflaw.readOne_fails hc rfl
  exact ⟨e, _, m, hrun⟩

omit hc in
theorem body_eq : body rounds depth = (do
    let res ← readOne fun p => p.run (host.callbacks rounds depth)
    Parser.normalise "Assignment" res.toValue : Act (Outcome Function)) := by
  rw [body, onePart, Parser.run]
  change ((do return (← readOne _).toValue : Act (Value Function)) >>= _) = _
  rw [bind_assoc]
  rfl

theorem body_of_scan {pair : String × Int} {r : List Char}
    (h : scan (src.drop n) = some (pair, r)) :
    ∃ m, src.drop m = r ∧
      body rounds depth c (place src n) = (.returned (.ok (item pair)), place src m) := by
  obtain ⟨m, hm, hrun⟩ := readOne_of_scan hc h
  refine ⟨m, hm, ?_⟩
  rw [body_eq, Action.bind_apply, hrun]
  simp [Outcome.toValue]

theorem body_of_not_scan (h : scan (src.drop n) = none) :
    ∃ e i m, body rounds depth c (place src n) = (.returned (.err e (.int i)), place src m) := by
  obtain ⟨e, i, m, hrun⟩ := readOne_of_not_scan hc h
  refine ⟨e, i, m, ?_⟩
  rw [body_eq, Action.bind_apply, hrun]
  simp [Outcome.toValue]

/-- A repetition takes the assignments off the text as scanning does. -/
theorem repeated_scans : ∀ (fuel n : Nat) (done : List (Value Function)),
    (src.drop n).length < fuel → ∃ pairs m, Scans (src.drop n) pairs (src.drop m) ∧
      scan (src.drop m) = none ∧
      Parser.repeated "Assignment" (body rounds depth) fuel done c (place src n) =
        (.returned (done.reverse ++ pairs.map item), place src m)
  | 0, _, _, h => absurd h (Nat.not_lt_zero _)
  | fuel + 1, n, done, h => by
    rw [Parser.repeated, Action.bind_apply, Action.save_apply]
    rcases hs : scan (src.drop n) with _ | ⟨pair, r⟩
    · obtain ⟨e, i, m, hrun⟩ : ∃ e i m, body rounds depth c (place src n) =
          (.returned (.err e (.int i)), place src m) := body_of_not_scan hc hs
      refine ⟨[], n, .nil _, hs, ?_⟩
      simp [Action.bind_apply, Action.map_apply, hrun]
    · obtain ⟨m, rfl, hrun⟩ : ∃ m, src.drop m = r ∧ body rounds depth c (place src n) =
          (.returned (.ok (item pair)), place src m) := body_of_scan hc hs
      have hlt := length_lt_of_scan hs
      obtain ⟨pairs, k, hk, hstop, hrep⟩ := repeated_scans fuel m (item pair :: done) (by omega)
      refine ⟨pair :: pairs, k, .cons hs hk, hstop, ?_⟩
      have hne : ¬ m = n := by
        rintro rfl
        omega
      have hmark : (place src m).cursor.toMark.equal (place src n).cursor.toMark =
          .ok false := by
        have hb : (m == n) = false := by simpa using hne
        exact (Mark.equal_mk m n).trans (congrArg _ hb)
      simp [Action.bind_apply, hrun, Parser.checkProgress, hmark, hrep]

omit hc in
theorem collect_item (pairs : List (String × Int)) :
    collect (pairs.map item) = lastValues pairs := by
  have hpairs : (pairs.map item).filterMap pair? = pairs := by
    rw [List.filterMap_map]
    exact List.filterMap_some
  rw [collect, hpairs, foldl_assign]

/-- Reading takes the assignments off the text, and ends where there is none any more. -/
theorem read_eq_ending (depth : Nat) (hr : src.length < rounds) :
    ∃ pairs m, Scans (src.dropWhile isBlank) pairs (src.drop m) ∧ scan (src.drop m) = none ∧
      read (host.callbacks rounds (depth + 1)) c (place src 0) =
        ending (host.callbacks rounds (depth + 1)) (pairs.map item) c (place src m) := by
  have hspace : Parser.whitespace.run (host.callbacks rounds (depth + 1)) c (place src 0) = _ :=
    whitespace_takes src 0
  set n := runEnd isBlank src 0 with hn
  have hfuel : (src.drop n).length < rounds := by
    rw [List.length_drop]
    omega
  obtain ⟨pairs, m, hscan, hstop, hrep⟩ : ∃ pairs m, Scans (src.drop n) pairs (src.drop m) ∧
      scan (src.drop m) = none ∧
      Parser.repeated "Assignment" (body rounds depth) rounds [] c (place src n) =
        (.returned ([].reverse ++ pairs.map item), place src m) := repeated_scans hc _ _ _ hfuel
  have hsev : several.run (host.callbacks rounds (depth + 1)) c (place src n) =
      (.returned (.ok (.list (pairs.map item))), place src m) := by
    have hmany : several.run (host.callbacks rounds (depth + 1)) =
        (do return .ok (.list (← Parser.repeated "Assignment" (body rounds depth) rounds [])) :
          Act (Outcome Function)) := by
      rw [several, Parser.run]
      rfl
    rw [hmany, Action.bind_apply, hrep]
    rfl
  rw [hn, drop_runEnd, List.drop_zero] at hscan
  have hitems : (Value.list (pairs.map item) : Value Function).entries = pairs.map item := rfl
  refine ⟨pairs, m, hscan, hstop, ?_⟩
  simp [read, ending, Action.bind_apply, hspace, hsev, hitems]

omit hc in
theorem ending_of_nil {cb : Callbacks Function Unit} (h : src.drop n = [])
    (pairs : List (String × Int)) :
    ending cb (pairs.map item) c (place src n) =
      (.returned (.ok (lastValues pairs)), place src n) := by
  simp [ending, Action.bind_apply, run_eof h, collect_item]

/-- Where no assignment begins before the end, nothing is read. -/
theorem ending_of_ne (h : src.drop n ≠ []) (hstop : scan (src.drop n) = none)
    (items : List (Value Function)) {x : Result}
    (hx : (ending (host.callbacks rounds depth) items c (place src n)).1 = .returned x) :
    ∃ res, x = .failed res := by
  obtain ⟨e, i, k, hrun⟩ : ∃ e i k, readOne (fun p => p.run (host.callbacks rounds depth)) c
      (place src n) = (.returned (.err e (.int i)), place src k) := readOne_of_not_scan hc hstop
  obtain ⟨e, i, heof⟩ | ⟨-, e, heof⟩ : (∃ e i, Parser.eof.run _ c (place src n) = _) ∨ _ ∧
      ∃ e, Parser.eof.run (host.callbacks rounds depth) c (place src n) = _ := run_eof_of_ne h
  · simp [ending, Action.bind_apply, heof, hrun] at hx
    exact ⟨_, hx.symm⟩
  · simp [ending, Action.bind_apply, heof] at hx

/-- Reading stops where scanning does, and succeeds only at the end of the text. -/
theorem read_scans (depth : Nat) (hr : src.length < rounds) :
    ∃ pairs r, Scans (src.dropWhile isBlank) pairs r ∧ scan r = none ∧
      (r = [] → (read (host.callbacks rounds (depth + 1)) c (place src 0)).1 =
        .returned (.ok (lastValues pairs))) ∧
      (r ≠ [] → ∀ x, (read (host.callbacks rounds (depth + 1)) c (place src 0)).1 = .returned x →
        ∃ res, x = .failed res) := by
  obtain ⟨pairs, m, hscan, hstop, hread⟩ : ∃ pairs m, _ ∧ _ ∧
      read (host.callbacks rounds (depth + 1)) c (place src 0) = _ := read_eq_ending hc depth hr
  refine ⟨pairs, src.drop m, hscan, hstop, fun hend => ?_, fun hend x => ?_⟩
  · rw [hread, ending_of_nil hend]
  · rw [hread]
    exact ending_of_ne hc hend hstop _

end ReadOne

theorem readAll_scans (settings : Settings Function) (text : String) :
    ∃ pairs r, Scans (text.toList.dropWhile isBlank) pairs r ∧ scan r = none ∧
      (r = [] → readAll settings text = .returned (.ok (lastValues pairs))) ∧
      (r ≠ [] → ∀ x, readAll settings text = .returned x → ∃ res, x = .failed res) := by
  have hlen : text.toList.length < text.length + 1 := by
    rw [String.length_toList]
    exact Nat.lt_succ_self _
  exact read_scans (c := ⟨registry, settings, .warning⟩) rfl 0 hlen

/-- What is a list of assignments behind blanks is read, and each name has its last value. -/
theorem readAll_of_entries (settings : Settings Function) {text : String} {lead rest : List Char}
    {pairs : List (String × Int)} (htext : text.toList = lead ++ rest) (hlead : IsGap lead)
    (hentries : Entries rest pairs) :
    readAll settings text = .returned (.ok (lastValues pairs)) := by
  obtain ⟨ps, r, hscan, hstop, hok, -⟩ := readAll_scans settings text
  have hrest : text.toList.dropWhile isBlank = rest := by
    rw [htext]
    exact dropWhile_append hlead hentries.stops
  rw [hrest] at hscan
  have hnil : scan [] = none := rfl
  obtain ⟨rfl, rfl⟩ := hscan.unique hstop hentries.scans hnil
  exact hok rfl

/-- A text is read exactly if it is a list of assignments behind blanks; then each name has its last
value, at the place of its first assignment. -/
theorem readAll_eq_ok_iff (settings : Settings Function) (text : String)
    (d : List (String × Int)) :
    readAll settings text = .returned (.ok d) ↔
      ∃ lead rest pairs, text.toList = lead ++ rest ∧ IsGap lead ∧ Entries rest pairs ∧
        d = lastValues pairs := by
  obtain ⟨pairs, r, hscan, hstop, hok, hfail⟩ := readAll_scans settings text
  constructor
  · intro h
    have hr : r = [] := by
      by_contra hr
      obtain ⟨res, hres⟩ := hfail hr _ h
      cases hres
    subst hr
    have hd := (hok rfl).symm.trans h
    simp only [Answer.returned.injEq, Result.ok.injEq] at hd
    exact ⟨text.toList.takeWhile isBlank, text.toList.dropWhile isBlank, pairs,
      List.takeWhile_append_dropWhile.symm, isGap_takeWhile _, entries_iff_scans.2 hscan, hd.symm⟩
  · rintro ⟨lead, rest, ps, htext, hlead, hentries, rfl⟩
    exact readAll_of_entries settings htext hlead hentries

/-- The assignment at which the list ends early is never read when it is tried once more. -/
theorem readAll_ne_single (settings : Settings Function) (text : String) (v : Value Function) :
    readAll settings text ≠ .returned (.single v) := by
  obtain ⟨pairs, r, -, -, hok, hfail⟩ := readAll_scans settings text
  intro h
  by_cases hr : r = []
  · cases (hok hr).symm.trans h
  · obtain ⟨res, hres⟩ := hfail hr _ h
    cases hres

end ParserAlgebra.Assignment
