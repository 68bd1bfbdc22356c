import ParserAlgebra.Proofs.Grammar
import ParserAlgebra.Proofs.Repetition

/-!
# Assignments that are written are read back

A number that is written is read back (`Numeral.read_of_write?`): its digits stand for it, and there are
not too many of them to be read. So a list of assignments is read back as it was written, however its names
look and whatever blanks stand between the parts (`Assignment.readAll_written`). A name may hold the sign or
be the sign, and a number may be negative: a blank ends the name, and the sign comes next.
-/

namespace ParserAlgebra

/-! ## Numbers -/

namespace Numeral

variable {c : Char} {l : List Char} {n : Nat}

theorem digit?_of_isDigit (h : c.isDigit = true) : digit? 10 c = some (c.toNat - '0'.toNat) := by
  obtain ⟨hlow, hhigh⟩ := Char.isDigit_iff_toNat.1 h
  have hzero : '0'.toNat = 48 := rfl
  have hnine : '9'.toNat = 57 := rfl
  have hfirst : zeros.find? (fun z => z ≤ c.toNat && c.toNat < z + 10) = some 0x30 := by
    rw [zeros, List.find?_cons_of_pos]
    simp only [Bool.and_eq_true, decide_eq_true_eq]
    omega
  have hlt : c.toNat - 48 < 10 := by omega
  simp [digit?, decimal?, hfirst, hzero, hlt]

theorem ne_of_isDigit {x : Char} (h : c.isDigit = true) (hx : x.isDigit = false) : c ≠ x := by
  rintro rfl
  rw [h] at hx
  cases hx

theorem isBlank_of_isDigit (h : c.isDigit = true) : isBlank c = false := by
  obtain ⟨hlow, hhigh⟩ := Char.isDigit_iff_toNat.1 h
  have hzero : '0'.toNat = 48 := rfl
  have hnine : '9'.toNat = 57 := rfl
  simp only [isBlank, Bool.or_eq_false_iff, Bool.and_eq_false_iff, decide_eq_false_iff_not,
    beq_eq_false_iff_ne]
  omega

theorem toLower_of_isDigit (h : c.isDigit = true) : c.toLower = c := by
  obtain ⟨hlow, hhigh⟩ := Char.isDigit_iff_toNat.1 h
  have hnine : '9'.toNat = 57 := rfl
  have hupper : ¬ (c.val ≥ 'A'.val ∧ c.val ≤ 'Z'.val) := fun hA => by
    have hA : 65 ≤ c.toNat := UInt32.le_iff_toNat_le.1 hA.1
    omega
  unfold Char.toLower
  exact dif_neg hupper

/-- A run of digits is read to its end. -/
theorem readRun_digits (hl : ∀ c ∈ l, c.isDigit = true) {after : Bool}
    (hsome : after = true ∨ l ≠ []) (value digits : Nat) :
    readRun 10 after value digits l =
      some ⟨Nat.ofDigitChars 10 l value, digits + l.length, []⟩ := by
  induction l generalizing after value digits with
  | nil =>
    obtain rfl := hsome.resolve_right fun h => h rfl
    rfl
  | cons c l ih =>
    have hc := hl c (List.mem_cons_self ..)
    have hrest : ∀ c ∈ l, c.isDigit = true := fun x hx => hl x (List.mem_cons_of_mem _ hx)
    have hstep : readRun 10 after value digits (c :: l) =
        readRun 10 true (value * 10 + (c.toNat - '0'.toNat)) (digits + 1) l := by
      rw [readRun, digit?_of_isDigit hc]
      exact ne_of_isDigit hc rfl
    rw [hstep, ih hrest (.inl rfl), Nat.ofDigitChars_cons, Nat.mul_comm, List.length_cons]
    congr 2
    omega

/-- No digit marks a base. -/
theorem splitBase_digits (hl : ∀ c ∈ l, c.isDigit = true) : splitBase 10 l = (10, l) := by
  unfold splitBase
  split
  · next c r =>
    have hc : c.isDigit = true := hl c (by simp)
    have hmark : markedBase? c = none := by
      have hx : (c == 'x') = false := beq_eq_false_iff_ne.2 (ne_of_isDigit hc rfl)
      have ho : (c == 'o') = false := beq_eq_false_iff_ne.2 (ne_of_isDigit hc rfl)
      have hb : (c == 'b') = false := beq_eq_false_iff_ne.2 (ne_of_isDigit hc rfl)
      rw [markedBase?, toLower_of_isDigit hc]
      simp only [List.lookup_cons, hx, ho, hb, List.lookup_nil]
    rw [hmark]
    rfl
  · rfl

theorem trimBoth_eq_self {p : Char → Bool} (hl : ∀ c ∈ l, p c = false) : trimBoth p l = l := by
  have hkeep {l : List Char} (hl : ∀ c ∈ l, p c = false) : l.dropWhile p = l := by
    rcases l with _ | ⟨c, l⟩
    · rfl
    · rw [List.dropWhile_cons_of_neg (by simp [hl c])]
  rw [trimBoth, hkeep hl, hkeep fun c hc => hl c (List.mem_reverse.1 hc), List.reverse_reverse]

theorem isPadding_of_not_isBlank (h : isBlank c = false) : isPadding c = false := by
  rw [isPadding, h, Bool.false_and]

-- The limit is a number too large to be looked at, so it is kept behind a name.
theorem length_toDigits_le (h : n < writeLimit) : (Nat.toDigits 10 n).length ≤ digitLimit := by
  have hpos : 0 < digitLimit := by decide
  unfold writeLimit at h
  generalize digitLimit = limit at h hpos ⊢
  exact (Nat.length_toDigits_le_iff (by decide) hpos).2 h

theorem isDigit_of_mem (h : c ∈ Nat.toDigits 10 n) : c.isDigit = true :=
  Nat.isDigit_of_mem_toDigits (by decide) (by decide) h

/-- Digits after a sign, or without one, are read as the number that they stand for. -/
theorem read_of_splitSign {s : List Char} {negative : Bool} (hs : ∀ x ∈ s, isBlank x = false)
    (hsign : splitSign s = (negative, Nat.toDigits 10 n)) (hn : n < writeLimit) :
    read s = .ok (if negative then -(n : Int) else n) := by
  have hdigits : ∀ x ∈ Nat.toDigits 10 n, x.isDigit = true := fun _ => isDigit_of_mem
  have htrim : trimBoth isPadding s = s :=
    trimBoth_eq_self fun x hx => isPadding_of_not_isBlank (hs x hx)
  have hlength := Nat.not_lt.2 (length_toDigits_le hn)
  unfold read readIn
  rw [htrim, hsign]
  dsimp only
  rw [splitBase_digits hdigits]
  dsimp only
  rw [readRun_digits hdigits (.inr Nat.toDigits_ne_nil)]
  simp [hlength]

/-- The characters of a number that is written: its digits, after a sign if it is negative. -/
theorem toList_of_write? {k : Int} {s : String} (h : write? k = some s) :
    k.natAbs < writeLimit ∧ ((0 ≤ k ∧ s.toList = Nat.toDigits 10 k.natAbs) ∨
      (k < 0 ∧ s.toList = '-' :: Nat.toDigits 10 k.natAbs)) := by
  unfold write? at h
  split at h
  · next hlt =>
    obtain rfl := Option.some.inj h
    refine ⟨hlt, ?_⟩
    rcases k with n | n
    · exact .inl ⟨Int.natCast_nonneg n, String.toList_ofList⟩
    · refine .inr ⟨Int.negSucc_lt_zero n, ?_⟩
      change ("-" ++ String.ofList (Nat.toDigits 10 (n + 1))).toList = _
      rw [String.toList_append, String.toList_ofList, String.toList_ofList]
      rfl
  · cases h

/-- No part of a number that is written is blank. -/
theorem isWord_of_write? {k : Int} {s : String} (h : write? k = some s) :
    Assignment.IsWord s.toList := by
  have hdigits : ∀ x ∈ Nat.toDigits 10 k.natAbs, isBlank x = false := fun x hx =>
    isBlank_of_isDigit (isDigit_of_mem hx)
  rcases (toList_of_write? h).2 with ⟨-, hs⟩ | ⟨-, hs⟩
  · rw [hs]
    exact ⟨Nat.toDigits_ne_nil, hdigits⟩
  · rw [hs]
    refine ⟨List.cons_ne_nil _ _, fun x hx => ?_⟩
    rcases List.mem_cons.1 hx with rfl | hx
    · decide
    · exact hdigits x hx

theorem read_of_write? {k : Int} {s : String} (h : write? k = some s) : read s.toList = .ok k := by
  obtain ⟨hlt, hs⟩ := toList_of_write? h
  have hblank := (isWord_of_write? h).2
  rcases hs with ⟨hk, hs⟩ | ⟨hk, hs⟩
  · have hsign : splitSign s.toList = (false, Nat.toDigits 10 k.natAbs) := by
      rw [hs]
      unfold splitSign
      split
      · next hplus => exact absurd (isDigit_of_mem (by rw [hplus]; simp)) (by decide : ¬ '+'.isDigit)
      · next hminus => exact absurd (isDigit_of_mem (by rw [hminus]; simp)) (by decide : ¬ '-'.isDigit)
      · rfl
    rw [read_of_splitSign hblank hsign hlt]
    exact congrArg _ (Int.natAbs_of_nonneg hk)
  · have hsign : splitSign s.toList = (true, Nat.toDigits 10 k.natAbs) := by rw [hs, splitSign]
    rw [read_of_splitSign hblank hsign hlt]
    refine congrArg _ ?_
    simp only [if_true]
    omega

end Numeral

/-! ## Assignments -/

namespace Assignment

/-- An assignment as it is written, with the blanks that stand between its parts and after it. -/
structure Written where
  name : List Char
  gap : List Char
  pad : List Char
  value : Int
  digits : String
  tail : List Char
  isWord_name : IsWord name := by decide
  isGap_gap : IsGap gap := by decide
  gap_ne_nil : gap ≠ [] := by decide
  isGap_pad : IsGap pad := by decide
  digits_eq : Numeral.write? value = some digits
  isGap_tail : IsGap tail := by decide

namespace Written

def chars (w : Written) : List Char :=
  w.name ++ w.gap ++ '=' :: (w.pad ++ (w.digits.toList ++ w.tail))

def pair (w : Written) : String × Int := (String.ofList w.name, w.value)

/-- Blanks stand after each assignment but the last. -/
def Apart (ws : List Written) : Prop := ∀ w ∈ ws.dropLast, w.tail ≠ []

theorem entries {ws : List Written} (h : Apart ws) :
    Entries (ws.flatMap chars) (ws.map pair) := by
  induction ws with
  | nil => exact .nil
  | cons w ws ih =>
    have hrest : Apart ws := fun v hv => by
      rcases ws with _ | ⟨u, us⟩
      · cases hv
      · exact h v (List.mem_cons_of_mem _ hv)
    have hend : w.tail = [] → ws.flatMap chars = [] := fun htail => by
      rcases ws with _ | ⟨u, us⟩
      · rfl
      · exact absurd htail (h w (List.mem_cons_self ..))
    have hentries := Entries.cons w.isWord_name w.isGap_gap w.gap_ne_nil w.isGap_pad
      (Numeral.isWord_of_write? w.digits_eq) (Numeral.read_of_write? w.digits_eq) w.isGap_tail hend
      (ih hrest)
    simpa [chars, pair] using hentries

end Written

/-- A list of assignments is read back as it was written, behind any blanks: each name has its last value,
at the place of its first assignment. -/
theorem readAll_written (settings : Settings Function) {lead : List Char} (hlead : IsGap lead)
    {ws : List Written} (hws : Written.Apart ws) :
    readAll settings (String.ofList (lead ++ ws.flatMap Written.chars)) =
      .returned (.ok (lastValues (ws.map Written.pair))) :=
  readAll_of_entries settings (String.toList_ofList ..) hlead (Written.entries hws)

/-- The sign as a name, twice, a name that holds the sign, and a number below zero. -/
theorem readAll_written_signs :
    ∃ ws : List Written, Written.Apart ws ∧ IsGap [' '] ∧
      [' '] ++ ws.flatMap Written.chars = " = =-5\na=1\t = 4 = =0".toList ∧
        ws.map Written.pair = [("=", -5), ("a=1", 4), ("=", 0)] ∧
          readAll {} " = =-5\na=1\t = 4 = =0" = .returned (.ok [("=", 0), ("a=1", 4)]) := by
  have hwrite {k : Int} (h : k.natAbs ≤ 5) : Numeral.write? k = some (toString k) := by
    have hlt : k.natAbs < Numeral.writeLimit := lt_writeLimit (Nat.le_trans h (by decide))
    unfold Numeral.write?
    generalize Numeral.writeLimit = limit at hlt ⊢
    exact if_pos hlt
  let first : Written :=
    { name := ['='], gap := [' '], pad := [], value := -5, digits := "-5", tail := ['\n'],
      digits_eq := hwrite (by decide) }
  let second : Written :=
    { name := ['a', '=', '1'], gap := ['\t', ' '], pad := [' '], value := 4, digits := "4", tail := [' '],
      digits_eq := hwrite (by decide) }
  let third : Written :=
    { name := ['='], gap := [' '], pad := [], value := 0, digits := "0", tail := [],
      digits_eq := hwrite (by decide) }
  have hapart : Written.Apart [first, second, third] := by
    intro w hw
    obtain rfl | rfl := by simpa using hw
    · exact List.cons_ne_nil _ _
    · exact List.cons_ne_nil _ _
  have hlead : IsGap [' '] := by decide
  have hchars : [' '] ++ [first, second, third].flatMap Written.chars =
      " = =-5\na=1\t = 4 = =0".toList := by simp [first, second, third, Written.chars]
  have hpairs : [first, second, third].map Written.pair = [("=", -5), ("a=1", 4), ("=", 0)] := rfl
  have hlast : lastValues [("=", -5), ("a=1", 4), ("=", 0)] = [("=", 0), ("a=1", 4)] := by decide
  refine ⟨[first, second, third], hapart, hlead, hchars, hpairs, ?_⟩
  have hread := readAll_written {} hlead hapart
  rwa [hchars, String.ofList_toList, hpairs, hlast] at hread

end Assignment

end ParserAlgebra
