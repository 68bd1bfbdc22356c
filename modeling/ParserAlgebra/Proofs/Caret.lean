import ParserAlgebra.Assignment
import ParserAlgebra.Proofs.Lines

/-!
# The caret of a report

A report shows at most forty characters of the line on which a failure is reported, and a caret under them.
The caret stands under the character at the place of the failure; where that is a newline or the end of the
text it stands behind the last character that is shown. A failure that can be told is always reported
(`Value.describe_caret`).
-/

namespace ParserAlgebra

variable {ω : Type} [HostObject ω]

/-- The piece `shown` of the line `row` has the place `p` of the text where its caret stands. -/
structure Pointed (source : List Char) (p row : Nat) (shown : List Char) (caret : Nat) : Prop where
  of_line : ∃ l, (source.splitOn '\n')[row]? = some l ∧ shown <:+: l
  length_le : shown.length ≤ 40
  under : ∀ x, source[p]? = some x → x ≠ '\n' → shown[caret]? = some x
  behind : source[p]? = none ∨ source[p]? = some '\n' → caret = shown.length

theorem slice_infix (s : List Char) (start stop : Int) : slice s start stop <:+: s :=
  (List.take_prefix _ _).isInfix.trans (List.drop_suffix _ _).isInfix

/-- Both windows of a report show the column `col` of a line, counted from zero, where their caret stands,
and the one behind its last character as well. -/
theorem exists_excerpt {l : List Char} {col : Nat} (h : col ≤ l.length) : ∃ (shown : List Char)
    (caret : Nat), excerpt l (col + 1) = (shown, (caret : Int)) ∧ shown <:+: l ∧
      shown.length ≤ 40 ∧ shown[caret]? = l[col]? ∧ (col = l.length → caret = shown.length) := by
  by_cases hcol : (col : Int) + 1 ≤ 20
  · have hslice : slice l 0 40 = l.take 40 := by
      have hstart : clampIndex l.length 0 = 0 := by simp [clampIndex]
      have hstop : clampIndex l.length 40 = min 40 l.length := clampIndex_natCast _ 40
      rw [slice, hstart, hstop, List.drop_zero, Nat.sub_zero, List.take_eq_take_min, Nat.min_assoc,
        Nat.min_self, ← List.take_eq_take_min]
    refine ⟨l.take 40, col, ?_, (List.take_prefix _ _).isInfix, by simp, ?_, fun hend => ?_⟩
    · rw [excerpt, if_pos hcol, hslice, Int.add_sub_cancel]
    · rw [List.getElem?_take_of_lt (by omega)]
    · rw [List.length_take]
      omega
  · have hslice : slice l ((col : Int) + 1 - 21) ((col : Int) + 1 + 19) =
        (l.drop (col - 20)).take (min (col + 20) l.length - (col - 20)) := by
      have hstart : (col : Int) + 1 - 21 = ((col - 20 : Nat) : Int) := by omega
      have hstop : (col : Int) + 1 + 19 = ((col + 20 : Nat) : Int) := by omega
      have hle : col - 20 ≤ l.length := by omega
      rw [slice, hstart, hstop, clampIndex_natCast, clampIndex_natCast, Nat.min_eq_left hle]
    have hlength : (slice l ((col : Int) + 1 - 21) ((col : Int) + 1 + 19)).length =
        min (col + 20) l.length - (col - 20) := by
      rw [hslice, List.length_take, List.length_drop]
      omega
    refine ⟨_, 20, by rw [excerpt, if_neg hcol]; rfl, slice_infix _ _ _, by omega, ?_, by omega⟩
    rcases Nat.lt_or_eq_of_le h with hlt | rfl
    · rw [hslice, List.getElem?_take_of_lt (by omega), List.getElem?_drop, Nat.sub_add_cancel (by omega)]
    · rw [List.getElem?_eq_none (by omega), List.getElem?_eq_none (Nat.le_refl _)]

/-- What a report of the place `p` says: `said`, the line and the column, and the piece with its caret. -/
theorem report_eq (said : String) {source : List Char} {pos : Option Int} {p : Nat}
    (hp : (p : Int) = min (pos.getD source.length) source.length) : ∃ (row col caret : Nat)
      (shown : List Char), report (.ok said) source pos = .ok (said ++
        s!" (line {row + 1}, column {col + 1})\n" ++ String.ofList shown ++ "\n" ++
        String.ofList (List.replicate caret ' ') ++ "^") ∧
      Located source p row col ∧ Pointed source p row shown caret := by
  obtain ⟨row, col, hat⟩ := Located.exists_of_le (s := source) (p := p) (by omega)
  obtain ⟨l, hl, hcol, hunder, hbehind⟩ := hat.exists_line
  obtain ⟨shown, caret, hexcerpt, hinfix, hlength, hget, hend⟩ := exists_excerpt hcol
  have hrow : ((row : Int) + 1 - 1).toNat = row := by omega
  have hline : (lines source).getD row [] = l := by simp [List.getD, hl]
  have hcaret : ¬ (caret : Int) < leastCount := by
    have : leastCount < 0 := by decide
    omega
  refine ⟨row, col, caret, shown, ?_, hat, ?_⟩
  · simp only [report, ← hp, hat.lineCol_eq, hrow, hline, hexcerpt, if_neg hcaret, Int.toNat_natCast]
    rfl
  · rw [lines_eq_splitOn] at hl
    exact ⟨⟨l, hl, hinfix⟩, hlength, fun x hx hne => hget.trans (hunder x hx hne),
      fun hp => hend (hbehind hp)⟩

/-- A failure with an error that has a plain form, at a place that is nothing or not before the start, is
always reported. A place beyond the end counts as the end. -/
theorem Value.describe_caret {v e pos : Value ω} {place : Option Int} {said : String} {source : List Char}
    (hv : v.isA .err = true) (he : v.get .error = .ok e) (hsaid : e.text? = .ok said)
    (hpos : v.get .pos = .ok pos) (hplace : pos.place? = .ok place) (hn : ∀ n ∈ place, 0 ≤ n) :
    ∃ (p row col caret : Nat) (shown : List Char),
      v.describe source = .ok (said ++ s!" (line {row + 1}, column {col + 1})\n" ++
        String.ofList shown ++ "\n" ++ String.ofList (List.replicate caret ' ') ++ "^") ∧
      (p : Int) = min (place.getD source.length) source.length ∧
      row = (source.take p).count '\n' ∧ p = offset (source.splitOn '\n') row col ∧
      Pointed source p row shown caret := by
  obtain ⟨p, hp⟩ : ∃ p : Nat, (p : Int) = min (place.getD source.length) source.length := by
    refine ⟨(min (place.getD source.length) (source.length : Int)).toNat, Int.toNat_of_nonneg ?_⟩
    rcases place with _ | n
    · exact le_min (Int.natCast_nonneg _) (Int.natCast_nonneg _)
    · exact le_min (hn n rfl) (Int.natCast_nonneg _)
  obtain ⟨row, col, caret, shown, hreport, hat, hpointed⟩ := report_eq said hp
  refine ⟨p, row, col, caret, shown, ?_, hp, hat.count_eq.symm, ?_, hpointed⟩
  · rw [Value.describe, if_pos hv, Outcome.describe, Outcome.pos, Outcome.error, Outcome.toValue_ofValue,
      hpos, he]
    simp only [bind, Except.bind, hplace, hsaid, hreport]
  · rw [← lines_eq_splitOn, hat.offset_eq]

/-- A failure behind the twentieth column of the second line, and one beyond the end. -/
theorem Value.describe_caret_second_line :
    let source := 'x' :: '\n' :: List.replicate 50 'y'
    let failure (pos : Int) : Value Assignment.Function := .err (.exception .wordError [] .nil) (.int pos)
    let said (row col : Nat) (shown : List Char) (caret : Nat) := "expected a word, found no characters" ++
      s!" (line {row + 1}, column {col + 1})\n" ++ String.ofList shown ++ "\n" ++
      String.ofList (List.replicate caret ' ') ++ "^"
    (∃ col caret shown, (failure 27).describe source = .ok (said 1 col shown caret) ∧
      27 = offset (source.splitOn '\n') 1 col ∧ shown[caret]? = some 'y') ∧
    ∃ col shown, (failure 60).describe source = .ok (said 1 col shown shown.length) ∧
      52 = offset (source.splitOn '\n') 1 col := by
  intro source failure said
  have hlength : source.length = 52 := rfl
  refine ⟨?_, ?_⟩
  · obtain ⟨p, row, col, caret, shown, hdescribe, hp, hrow, hcol, hpointed⟩ :=
      @Value.describe_caret _ _ (failure 27) _ _ (some 27) _ source rfl rfl rfl rfl rfl (by simp)
    obtain rfl : p = 27 := by
      simp only [hlength, Option.getD_some] at hp
      omega
    obtain rfl : row = 1 := hrow
    exact ⟨col, caret, shown, hdescribe, hcol, hpointed.under 'y' rfl (by decide)⟩
  · obtain ⟨p, row, col, caret, shown, hdescribe, hp, hrow, hcol, hpointed⟩ :=
      @Value.describe_caret _ _ (failure 60) _ _ (some 60) _ source rfl rfl rfl rfl rfl (by simp)
    obtain rfl : p = 52 := by
      simp only [hlength, Option.getD_some] at hp
      omega
    obtain rfl : row = 1 := hrow
    obtain rfl : caret = shown.length := hpointed.behind (.inl rfl)
    exact ⟨col, shown, hdescribe, hcol⟩

end ParserAlgebra
