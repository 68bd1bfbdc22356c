import ParserAlgebra.Cursor.Place
import Mathlib.Algebra.GroupWithZero.Nat
import Mathlib.Data.Set.Function
import Mathlib.Order.Interval.Set.Defs

/-!
# The lines and columns of a text

The places of a text are told by their lines and columns. Going along a text from its start, a newline leads
to the next line and any other character to the next column (`Located`). So every line and column that the
text has belongs to one place, and a place further on is told by a later line, or by a later column of the
same line (`Cursor.lineCol_bijective`).
-/

namespace ParserAlgebra

variable {s : List Char} {x : Char}

/-! ## The lines of a text -/

theorem lines_newline (s : List Char) : lines ('\n' :: s) = [] :: lines s := rfl

/-- The lines of a text are its parts between the newlines. -/
theorem lines_eq_splitOn (s : List Char) : lines s = s.splitOn '\n' := by
  induction s with
  | nil => rfl
  | cons x s ih =>
    rw [List.splitOn_eq_splitOnP] at ih ⊢
    rw [List.splitOnP_cons_eq_if_modifyHead, ← ih, lines]
    by_cases hx : x = '\n'
    · simp [hx]
    · rw [if_neg hx, if_neg (by simpa using hx)]
      rcases hl : lines s with _ | ⟨l, ls⟩
      · exact absurd (ih.symm.trans hl) (List.splitOnP_ne_nil _ s)
      · rfl

/-- Every other character stands on the first line of what follows it. -/
theorem exists_lines_cons (hx : x ≠ '\n') (s : List Char) :
    ∃ l ls, lines s = l :: ls ∧ lines (x :: s) = (x :: l) :: ls := by
  rcases hl : lines s with _ | ⟨l, ls⟩
  · rw [lines_eq_splitOn, List.splitOn_eq_splitOnP] at hl
    exact absurd hl (List.splitOnP_ne_nil _ s)
  · exact ⟨l, ls, rfl, by rw [lines, if_neg hx, hl]⟩

/-- Over how many characters one goes to the column `col` of the line `row`, both counted from zero: the
lines before with the newlines that end them, and then the columns before. -/
def offset (ls : List (List Char)) (row col : Nat) : Nat :=
  ((ls.take row).map fun l => l.length + 1).sum + col

@[simp] theorem offset_zero (ls : List (List Char)) (col : Nat) : offset ls 0 col = col := by
  simp [offset]

@[simp] theorem offset_succ (l : List Char) (ls : List (List Char)) (row col : Nat) :
    offset (l :: ls) (row + 1) col = l.length + 1 + offset ls row col := by
  simp [offset, Nat.add_assoc]

/-! ## Going along a text -/

/-- At the place `p` one is on the line `row` and in the column `col`, both counted from zero. -/
inductive Located : List Char → Nat → Nat → Nat → Prop
  | start (s : List Char) : Located s 0 0 0
  | newline {s : List Char} {p row col : Nat} (h : Located s p row col) : Located ('\n' :: s) (p + 1) (row + 1) col
  | beside {s : List Char} {x : Char} {p col : Nat} (hx : x ≠ '\n') (h : Located s p 0 col) :
      Located (x :: s) (p + 1) 0 (col + 1)
  | under {s : List Char} {x : Char} {p row col : Nat} (hx : x ≠ '\n')
      (h : Located s p (row + 1) col) :
      Located (x :: s) (p + 1) (row + 1) col

variable {p q row col row' col' : Nat}

theorem lastNewline?_eq_none : lastNewline? s = none ↔ s.count '\n' = 0 := by
  induction s with
  | nil => simp [lastNewline?]
  | cons x s ih =>
    rw [lastNewline?, List.count_cons]
    rcases hs : lastNewline? s with _ | i
    · have hcount := ih.1 hs
      by_cases hx : x = '\n' <;> simp [hx, hcount]
    · have hcount : s.count '\n' ≠ 0 := fun h => by simp [ih.2 h] at hs
      simpa using fun h => absurd h hcount

/-- The line and the column of a place are found from the text before it. -/
theorem lineCol_of_le (h : p ≤ s.length) : lineCol s p =
    (((s.take p).count '\n' : Int) + 1, p - ((lastNewline? (s.take p)).map Int.ofNat).getD (-1)) := by
  have hmin : min (p : Int) s.length = p := by omega
  have hmin' : min p s.length = p := by omega
  simp [lineCol, hmin, hmin']

namespace Located

theorem exists_of_le (h : p ≤ s.length) : ∃ row col, Located s p row col := by
  induction s generalizing p with
  | nil =>
    obtain rfl : p = 0 := Nat.le_zero.1 h
    exact ⟨0, 0, .start _⟩
  | cons x s ih =>
    rcases p with _ | p
    · exact ⟨0, 0, .start _⟩
    · obtain ⟨row, col, hl⟩ := ih (Nat.le_of_succ_le_succ h)
      by_cases hx : x = '\n'
      · exact ⟨row + 1, col, hx ▸ .newline hl⟩
      · rcases row with _ | row
        · exact ⟨0, col + 1, .beside hx hl⟩
        · exact ⟨row + 1, col, .under hx hl⟩

theorem le_length (h : Located s p row col) : p ≤ s.length := by
  induction h with
  | start s => exact Nat.zero_le _
  | newline _ ih | beside _ _ ih | under _ _ ih => exact Nat.succ_le_succ ih

theorem count_eq (h : Located s p row col) : (s.take p).count '\n' = row := by
  induction h with
  | start s => rfl
  | newline _ ih => simpa using ih
  | beside hx _ ih | under hx _ ih => simpa [List.count_cons_of_ne hx] using ih

/-- What is taken from the place for the column is where the last newline stands, or one place before the
start. -/
theorem column_eq (h : Located s p row col) :
    (p : Int) - ((lastNewline? (s.take p)).map Int.ofNat).getD (-1) = col + 1 := by
  induction h with
  | start s => rfl
  | @newline s p row col h ih =>
    rw [List.take_succ_cons, lastNewline?]
    rcases hn : lastNewline? (s.take p) with _ | i <;> simp [hn] at ih ⊢ <;> omega
  | @beside s x p col hx h ih =>
    have hn : lastNewline? (s.take p) = none := lastNewline?_eq_none.2 h.count_eq
    rw [List.take_succ_cons, lastNewline?]
    simp [hn, hx] at ih ⊢
    omega
  | @under s x p row col hx h ih =>
    have hn : lastNewline? (s.take p) ≠ none := fun hn => by
      have := h.count_eq
      simp [lastNewline?_eq_none.1 hn] at this
    obtain ⟨i, hi⟩ := Option.ne_none_iff_exists'.1 hn
    rw [List.take_succ_cons, lastNewline?]
    simp [hi] at ih ⊢
    omega

theorem lineCol_eq (h : Located s p row col) : lineCol s p = ((row : Int) + 1, (col : Int) + 1) := by
  rw [lineCol_of_le h.le_length, h.count_eq, h.column_eq]

/-- So many characters lie before the place. -/
theorem offset_eq (h : Located s p row col) : offset (lines s) row col = p := by
  induction h with
  | start s => simp
  | newline h ih => rw [lines_newline, offset_succ, ih, List.length_nil]; omega
  | beside hx h ih => simpa using ih
  | @under s x p row col hx h ih =>
    obtain ⟨l, ls, hs, hcons⟩ := exists_lines_cons hx s
    rw [hs, offset_succ] at ih
    rw [hcons, offset_succ, List.length_cons]
    omega

/-- The line on which the place is goes at least to its column, where the character of the place stands; if
that is a newline or nothing at all the line ends there. -/
theorem exists_line (h : Located s p row col) : ∃ l, (lines s)[row]? = some l ∧ col ≤ l.length ∧
    (∀ x, s[p]? = some x → x ≠ '\n' → l[col]? = some x) ∧
    ((s[p]? = none ∨ s[p]? = some '\n') → col = l.length) := by
  induction h with
  | start s =>
    rcases s with _ | ⟨x, s⟩
    · exact ⟨[], rfl, Nat.le_refl _, by simp, by simp⟩
    · by_cases hx : x = '\n'
      · exact ⟨[], by rw [hx]; rfl, Nat.le_refl _, by simp [hx], by simp⟩
      · obtain ⟨l, ls, -, hcons⟩ := exists_lines_cons hx s
        exact ⟨x :: l, by rw [hcons]; rfl, Nat.zero_le _, by simp, by simp [hx]⟩
  | newline h ih => simpa [lines_newline] using ih
  | @beside s x p col hx h ih =>
    obtain ⟨l, ls, hs, hcons⟩ := exists_lines_cons hx s
    obtain ⟨l', hl', hcol, hat, hend⟩ := ih
    obtain rfl : l = l' := by simpa [hs] using hl'
    exact ⟨x :: l, by rw [hcons]; rfl, Nat.succ_le_succ hcol, by simpa using hat,
      fun hp => by simpa using hend (by simpa using hp)⟩
  | @under s x p row col hx h ih =>
    obtain ⟨l, ls, hs, hcons⟩ := exists_lines_cons hx s
    simpa [hs, hcons] using ih

/-- Every column of every line, and the one behind its last character, is that of a place. -/
theorem of_line {l : List Char} (hl : (lines s)[row]? = some l) (hcol : col ≤ l.length) :
    Located s (offset (lines s) row col) row col := by
  induction s generalizing row col l with
  | nil =>
    rcases row with _ | row
    · obtain rfl : l = [] := by simpa [lines] using hl.symm
      obtain rfl : col = 0 := Nat.le_zero.1 hcol
      exact .start _
    · simp [lines] at hl
  | cons x s ih =>
    by_cases hx : x = '\n'
    · subst hx
      rw [lines_newline] at hl ⊢
      rcases row with _ | row
      · obtain rfl : l = [] := by simpa using hl.symm
        obtain rfl : col = 0 := Nat.le_zero.1 hcol
        exact .start _
      · rw [offset_succ, List.length_nil, Nat.add_comm]
        exact .newline (ih (by simpa using hl) hcol)
    · obtain ⟨l', ls, hs, hcons⟩ := exists_lines_cons hx s
      rw [hcons] at hl ⊢
      rw [hs] at ih
      rcases row with _ | row
      · obtain rfl : l = x :: l' := by simpa using hl.symm
        rcases col with _ | col
        · exact .start _
        · have hzero : (l' :: ls)[0]? = some l' := rfl
          exact .beside hx (ih hzero (Nat.le_of_succ_le_succ hcol))
      · have hl' : (l' :: ls)[row + 1]? = some l := by simpa using hl
        have hbelow := ih hl' hcol
        rw [offset_succ] at hbelow ⊢
        rw [List.length_cons, Nat.add_right_comm]
        exact .under hx hbelow

/-- Further on in the text one is on a later line, or in a later column of the same line. -/
theorem lex_of_lt (h : Located s p row col) (h' : Located s q row' col') (hlt : p < q) :
    row < row' ∨ row = row' ∧ col < col' := by
  induction h generalizing q row' col' with
  | start s =>
    cases h' with
    | start => exact absurd hlt (Nat.lt_irrefl 0)
    | newline | under => exact .inl (Nat.succ_pos _)
    | beside => exact .inr ⟨rfl, Nat.succ_pos _⟩
  | newline h ih =>
    cases h' with
    | start => exact absurd hlt (Nat.not_lt_zero _)
    | newline h' =>
      rcases ih h' (Nat.lt_of_succ_lt_succ hlt) with hrow | ⟨rfl, hcol⟩
      · exact .inl (Nat.succ_lt_succ hrow)
      · exact .inr ⟨rfl, hcol⟩
    | beside hx | under hx => exact absurd rfl hx
  | beside hx h ih =>
    cases h' with
    | start => exact absurd hlt (Nat.not_lt_zero _)
    | newline => exact absurd rfl hx
    | beside _ h' =>
      rcases ih h' (Nat.lt_of_succ_lt_succ hlt) with hrow | ⟨-, hcol⟩
      · exact absurd hrow (Nat.lt_irrefl 0)
      · exact .inr ⟨rfl, Nat.succ_lt_succ hcol⟩
    | under => exact .inl (Nat.succ_pos _)
  | under hx h ih =>
    cases h' with
    | start => exact absurd hlt (Nat.not_lt_zero _)
    | newline => exact absurd rfl hx
    | beside _ h' =>
      rcases ih h' (Nat.lt_of_succ_lt_succ hlt) with hrow | ⟨hrow, -⟩
      · exact absurd hrow (Nat.not_lt_zero _)
      · cases hrow
    | under _ h' => exact ih h' (Nat.lt_of_succ_lt_succ hlt)

end Located

/-! ## The places of a text -/

/-- The lines and columns that a text has, both counted from one. The newline that ends a line, or the end
of the text, is in the column behind its last character. -/
def places (source : List Char) : Set (Int × Int) :=
  {place | ∃ (row col : Nat) (l : List Char), (source.splitOn '\n')[row]? = some l ∧ col ≤ l.length ∧
    place = ((row : Int) + 1, (col : Int) + 1)}

/-- The lines and columns are in order with the places of the text, one for one. How many characters lie
before a place follows from its line and its column. Behind the end there is no other place. -/
theorem Cursor.lineCol_bijective {ω : Type} (c : Cursor ω) :
    Set.BijOn (fun p : Nat => c.lineCol (some p)) (Set.Iic c.source.length) (places c.source) ∧
    (∀ p q : Nat, p < q → q ≤ c.source.length →
      Prod.Lex (· < ·) (· < ·) (c.lineCol (some p)) (c.lineCol (some q))) ∧
    (∀ p ≤ c.source.length, ∃ row col : Nat, c.lineCol (some p) = ((row : Int) + 1, (col : Int) + 1) ∧
      p = offset (c.source.splitOn '\n') row col) ∧
    ∀ p : Int, c.source.length ≤ p → c.lineCol (some p) = c.lineCol (some c.source.length) := by
  have hlex (p q : Nat) (hpq : p < q) (hq : q ≤ c.source.length) :
      Prod.Lex (· < ·) (· < ·) (c.lineCol (some p)) (c.lineCol (some q)) := by
    obtain ⟨row, col, h⟩ := Located.exists_of_le (Nat.le_of_lt (Nat.lt_of_lt_of_le hpq hq))
    obtain ⟨row', col', h'⟩ := Located.exists_of_le hq
    rw [Cursor.lineCol, Cursor.lineCol, Option.getD_some, Option.getD_some, h.lineCol_eq, h'.lineCol_eq]
    rcases h.lex_of_lt h' hpq with hrow | ⟨rfl, hcol⟩
    · exact .left _ _ (by simpa using hrow)
    · exact .right _ (by simpa using hcol)
  have hne (p q : Nat) (hpq : p < q) (hq : q ≤ c.source.length) :
      c.lineCol (some p) ≠ c.lineCol (some q) := fun heq => by
    have h := hlex p q hpq hq
    rw [heq] at h
    cases h with
    | left _ _ hrow => exact Int.lt_irrefl _ hrow
    | right _ hcol => exact Int.lt_irrefl _ hcol
  refine ⟨.mk ?_ ?_ ?_, hlex, fun p hp => ?_, fun p hp => ?_⟩
  · intro p hp
    obtain ⟨row, col, h⟩ := Located.exists_of_le (Set.mem_Iic.1 hp)
    obtain ⟨l, hl, hcol, -⟩ := h.exists_line
    rw [lines_eq_splitOn] at hl
    exact ⟨row, col, l, hl, hcol, h.lineCol_eq⟩
  · intro p hp q hq heq
    rcases Nat.lt_trichotomy p q with h | h | h
    · exact absurd heq (hne p q h hq)
    · exact h
    · exact absurd heq.symm (hne q p h hp)
  · rintro _ ⟨row, col, l, hl, hcol, rfl⟩
    rw [← lines_eq_splitOn] at hl
    have h := Located.of_line hl hcol
    exact ⟨_, Set.mem_Iic.2 h.le_length, h.lineCol_eq⟩
  · obtain ⟨row, col, h⟩ := Located.exists_of_le hp
    refine ⟨row, col, h.lineCol_eq, ?_⟩
    rw [← lines_eq_splitOn, h.offset_eq]
  · have hmin : min p c.source.length = (c.source.length : Int) := min_eq_right hp
    simp only [Cursor.lineCol, ParserAlgebra.lineCol, Option.getD_some, hmin, min_self]

end ParserAlgebra
