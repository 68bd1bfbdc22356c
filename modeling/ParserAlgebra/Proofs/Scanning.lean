import ParserAlgebra.Proofs.AssignmentParts
import ParserAlgebra.Proofs.Conversions
import ParserAlgebra.Proofs.Steps

/-!
# Reading one assignment

What the parsers of a name and of a value do on the characters that are left is said by two
functions on lists of characters, `scanName` and `scanValue`: a word is taken as long as possible,
and so are the blanks after it. Where such a function has no result the parser fails with the union
of the errors, and nothing is raised (`namePart_fails`, `valuePart_fails`).
-/

namespace ParserAlgebra.Assignment

/-- What is left after the sign and the blanks around it, if a name comes first. -/
def scanName (l : List Char) : Option (List Char × List Char) :=
  let name := l.takeWhile (!isBlank ·)
  match name, (l.dropWhile (!isBlank ·)).dropWhile isBlank with
  | _ :: _, '=' :: r => some (name, r.dropWhile isBlank)
  | _, _ => none

/-- The number that comes first and what is left after it and the blanks behind it. -/
def scanValue (l : List Char) : Option (Int × List Char) :=
  let digits := l.takeWhile (!isBlank ·)
  match digits, Numeral.read digits with
  | _ :: _, .ok n => some (n, (l.dropWhile (!isBlank ·)).dropWhile isBlank)
  | _, _ => none

theorem scanName_eq_some {l name r : List Char} (h : scanName l = some (name, r)) :
    name = l.takeWhile (!isBlank ·) ∧ name ≠ [] ∧ ∃ r',
      (l.dropWhile (!isBlank ·)).dropWhile isBlank = '=' :: r' ∧ r = r'.dropWhile isBlank := by
  simp only [scanName] at h
  split at h
  · next x xs r' hx hr =>
    obtain ⟨rfl, rfl⟩ := by simpa using h
    exact ⟨rfl, by simp [hx], r', hr, rfl⟩
  · cases h

theorem scanName_eq_none {l : List Char} (h : scanName l = none) :
    l.takeWhile (!isBlank ·) = [] ∨
      ∀ r, (l.dropWhile (!isBlank ·)).dropWhile isBlank ≠ '=' :: r := by
  simp only [scanName] at h
  split at h
  · cases h
  · next hne =>
    rcases hl : l.takeWhile (!isBlank ·) with _ | ⟨x, xs⟩
    · exact .inl rfl
    · exact .inr fun r hr => hne x xs r hl hr

theorem scanValue_eq_some {l r : List Char} {n : Int} (h : scanValue l = some (n, r)) :
    l.takeWhile (!isBlank ·) ≠ [] ∧ Numeral.read (l.takeWhile (!isBlank ·)) = .ok n ∧
      r = (l.dropWhile (!isBlank ·)).dropWhile isBlank := by
  simp only [scanValue] at h
  split at h
  · next x xs k hx hk =>
    obtain ⟨rfl, rfl⟩ := by simpa using h
    exact ⟨by simp [hx], hk, rfl⟩
  · cases h

theorem scanValue_eq_none {l : List Char} (h : scanValue l = none) :
    l.takeWhile (!isBlank ·) = [] ∨
      ∃ flaw, Numeral.read (l.takeWhile (!isBlank ·)) = .error flaw := by
  simp only [scanValue] at h
  split at h
  · cases h
  · next hne =>
    rcases hl : l.takeWhile (!isBlank ·) with _ | ⟨x, xs⟩
    · exact .inl rfl
    · rcases hn : Numeral.read (x :: xs) with flaw | k
      · exact .inr ⟨flaw, rfl⟩
      · exact absurd (hl ▸ hn) (hne x xs k hl)

/-- The state at a place of an input when nothing was written to the log. -/
def place (src : List Char) (n : Nat) : State Function Unit := ⟨⟨⟨n, none⟩, src⟩, [], ()⟩

variable {cb : Callbacks Function Unit} {c : Context Function} {src : List Char} {n m : Nat}
  {p q : Parser Function}

@[simp] theorem backTo_place : (place src n).backTo (place src m).cursor.toMark = place src m := rfl

/-- The place where the run of characters of the class `f` ends that begins at the place `n`. -/
def runEnd (f : Char → Bool) (src : List Char) (n : Nat) : Nat :=
  n + ((src.drop n).takeWhile f).length

theorem drop_runEnd (f : Char → Bool) :
    src.drop (runEnd f src n) = (src.drop n).dropWhile f := by
  calc src.drop (runEnd f src n)
      = ((src.drop n).takeWhile f ++ (src.drop n).dropWhile f).drop
          ((src.drop n).takeWhile f).length := by
        rw [List.takeWhile_append_dropWhile, List.drop_drop, runEnd]
    _ = (src.drop n).dropWhile f := List.drop_left

theorem skipRun_place (f : Char → Bool) :
    (Parser.skipRun f : Act Nat) c (place src n) =
      (.returned ((src.drop n).takeWhile f).length, place src (runEnd f src n)) := by
  unfold Parser.skipRun runEnd
  rw [Action.bind_apply, Action.cursor_apply]
  by_cases h : ((src.drop n).takeWhile f).length = 0
  · have hr : ((place src n).cursor.rest.takeWhile f).length = 0 := h
    simp [h, hr]
  · have hr : ((place src n).cursor.rest.takeWhile f).length ≠ 0 := h
    dsimp only
    rw [if_pos hr]
    rfl

/-! ## Successes and failures -/

/-- A parser succeeds at a place with a value, and leaves another place. -/
def Takes (cb : Callbacks Function Unit) (c : Context Function) (src : List Char)
    (p : Parser Function) (n : Nat) (v : Value Function) (m : Nat) : Prop :=
  p.run cb c (place src n) = (.returned (.ok v), place src m)

/-- A parser fails at the place `n` with the union around an error, which is reported at the place
`i`. -/
def FailsWith (cb : Callbacks Function Unit) (c : Context Function) (src : List Char)
    (p : Parser Function) (n : Nat) (cause : Value Function) (i : Nat) : Prop :=
  ∃ e m, Wraps e cause ∧ p.run cb c (place src n) = (.returned (.err e (.int i)), place src m)

theorem whitespace_takes (src : List Char) (n : Nat) :
    Takes cb c src .whitespace n (.int ((src.drop n).takeWhile isBlank).length)
      (runEnd isBlank src n) := by
  rw [Takes, Parser.run, Action.bind_apply, skipRun_place]
  rfl

theorem word_takes (h : (src.drop n).takeWhile (!isBlank ·) ≠ []) :
    ∃ v, spanText v = String.ofList ((src.drop n).takeWhile (!isBlank ·)) ∧
      Takes cb c src .word n v (runEnd (!isBlank ·) src n) := by
  have h0 : ((src.drop n).takeWhile (!isBlank ·)).length ≠ 0 := by simpa using h
  refine ⟨.span ⟨src, n, runEnd (!isBlank ·) src n⟩, ?_, ?_⟩
  · simp only [spanText, Span.text, Span.chars, runEnd, Nat.add_sub_cancel_left]
    congr 1
    calc (src.drop n).take ((src.drop n).takeWhile (!isBlank ·)).length
        = ((src.drop n).takeWhile (!isBlank ·) ++ (src.drop n).dropWhile (!isBlank ·)).take
            ((src.drop n).takeWhile (!isBlank ·)).length := by
          rw [List.takeWhile_append_dropWhile]
      _ = (src.drop n).takeWhile (!isBlank ·) := List.take_left
  · rw [Takes, Parser.run, Action.bind_apply, Action.cursor_apply]
    dsimp only
    rw [Action.bind_apply, skipRun_place]
    dsimp only
    rw [if_neg h0]
    rfl

/-- The error of a word that is not there. -/
def noWord : Value Function := .exception .wordError [] .nil

theorem run_word_of_nil (h : (src.drop n).takeWhile (!isBlank ·) = []) :
    Parser.word.run cb c (place src n) = (.returned (.err noWord (.int n)), place src n) := by
  rw [Parser.run, Action.bind_apply, Action.cursor_apply]
  dsimp only
  rw [Action.bind_apply, skipRun_place, runEnd, h]
  rfl

theorem sign_takes {r : List Char} (h : src.drop n = '=' :: r) :
    Takes cb c src (.take "=") n (.span ⟨src, n, n + 1⟩) (n + 1) :=
  Parser.run_take_of_rest (by rfl) h

/-- The error of a sign that is not at the head of a text. -/
def noSign (l : List Char) : Value Function :=
  .takeError "=" (if l.isEmpty then .noSpace else .noMatch)

theorem run_sign_of_ne (h : ∀ r, src.drop n ≠ '=' :: r) :
    (Parser.take "=").run cb c (place src n) =
      (.returned (.err (noSign (src.drop n)) (.int n)), place src n) := by
  have hend : (place src n).cursor.atEnd = (src.drop n).isEmpty := by
    rw [Bool.eq_iff_iff, List.isEmpty_iff, List.drop_eq_nil_iff]
    exact decide_eq_true_iff
  rw [noSign, ← hend]
  exact Parser.run_take_of_ne (by rfl) h

/-! ## The union of the errors -/

section Union

variable {e : Value Function} {s : State Function Unit} {k : Kind} {name : String} {i : Int}

theorem retarget_union (he : e.Instance failed) :
    Parser.retarget cb name (.kind failed) (.kind failed) (.err e (.int i)) c s =
      (.returned (.err e (.int i)), s) := by
  have hi : failed.isInfallible = false := by decide
  rw [Parser.retarget_of_admits hi rfl rfl (Declared.admits_kind.2 (.inr he.isA))]
  rfl

variable (hc : c.registry = registry)

include hc

theorem coerce_wraps (he : e.kindOf ∈ absorbed) :
    ∃ e', Wraps e' e ∧ Conversion.coerce cb e (.kind failed) c s = (.returned e', s) := by
  have habs : ∀ k ∈ absorbed, k.isA failed = false ∧
      ((registry : Registry Function).find? k failed).isSome = true := by decide
  have hn : ¬ (Declared.kind failed : Declared Function).Admits e := by
    have ha : e.isA failed = false := (habs _ he).1
    have ho : failed ≠ .object := by decide
    simp [ha, ho]
  obtain ⟨conv, hf⟩ := Option.isSome_iff_exists.1 (habs _ he).2
  obtain ⟨-, rfl⟩ := find?_registry hf
  obtain ⟨v, hw, -⟩ := exists_wraps e
  refine ⟨v, hw, ?_⟩
  rw [Conversion.coerce_of_find? hn (hc ▸ hf), Conversion.apply, hw]
  rfl

theorem retarget_wraps (hk : k.isInfallible = false) (he : e.kindOf ∈ absorbed) :
    ∃ e', Wraps e' e ∧ Parser.retarget cb name (.kind k) (.kind failed) (.err e (.int i)) c s =
      (.returned (.err e' (.int i)), s) := by
  obtain ⟨e', hw, hr⟩ := coerce_wraps hc he
  refine ⟨e', hw, ?_⟩
  rw [Parser.retarget_of_fallible hk rfl, Action.bind_apply, hr]
  rfl

end Union

section Combinators

variable {v w e cause : Value Function} {k i j : Nat}

theorem Takes.after (hp : Takes cb c src p n v m) (hq : Takes cb c src q m w k) :
    Takes cb c src (.map (.seq p q) .first) n v k :=
  Parser.run_map_of_succeeded (Parser.run_seq_of_both_succeeded hp rfl rfl hq rfl rfl) rfl rfl

variable (hd : p.declares = .kind failed)

include hd

theorem FailsWith.after (hp : FailsWith cb c src p n cause i) :
    FailsWith cb c src (.map (.seq p q) .first) n cause i := by
  obtain ⟨e, m, hw, hrun⟩ := hp
  have hs : (Parser.seq p q).declares = .kind failed := by
    rw [Parser.declares, hd]
    rfl
  refine ⟨e, m, hw, Parser.run_map_of_failed ?_ rfl⟩
  rw [Parser.run_seq_of_failed hrun rfl, hd, hs]
  exact retarget_union hw.instance

theorem FailsWith.refine {f : Function} {err : Declared Function}
    (hp : FailsWith cb c src p n cause i) : FailsWith cb c src (.refine p f err) n cause i := by
  obtain ⟨e, m, hw, hrun⟩ := hp
  have hs : (Parser.refine p f err).declares = .kind failed := by
    rw [Parser.declares, hd]
    rfl
  refine ⟨e, m, hw, ?_⟩
  rw [Parser.run_refine_of_failed hrun rfl, hd, hs]
  exact retarget_union hw.instance

variable (hc : c.registry = registry) (hp : Takes cb c src p n v m)

include hc hp

theorem Takes.refine_raised {f : Function} {err : Declared Function}
    (hf : cb.call f v c (place src m) = (.raised e, place src m))
    (hcatch : err.catches e.kindOf = true) (he : e.kindOf ∈ absorbed) :
    FailsWith cb c src (.refine p f err) n e m := by
  have hs : (Parser.refine p f err).declares = .kind failed := by
    rw [Parser.declares, hd]
    rfl
  obtain ⟨e', hw, hr⟩ : ∃ e', Wraps e' e ∧
      Conversion.coerce cb e (.kind failed) c (place src m) = (.returned e', place src m) :=
    coerce_wraps hc he
  refine ⟨e', m, hw, ?_⟩
  rw [Parser.run_refine_of_raised hp rfl rfl hf hcatch, hs, Action.bind_apply, hr]
  rfl

theorem Takes.after_second {k : Kind}
    (hq : q.run cb c (place src m) = (.returned (.err e (.int i)), place src j))
    (hk : q.declares = .kind k) (hi : k.isInfallible = false) (he : e.kindOf ∈ absorbed) :
    FailsWith cb c src (.map (.seq p q) .first) n e i := by
  have hs : (Parser.seq p q).declares = .kind failed := by
    rw [Parser.declares, hd]
    rfl
  obtain ⟨e', hw, hr⟩ := retarget_wraps hc hi he
  refine ⟨e', j, hw, Parser.run_map_of_failed ?_ rfl⟩
  rw [Parser.run_seq_of_second_failed hp rfl hq rfl, hk, hs]
  exact hr

end Combinators

/-! ## A name and a value -/

theorem wordPart_takes (h : (src.drop n).takeWhile (!isBlank ·) ≠ []) :
    ∃ v, spanText v = String.ofList ((src.drop n).takeWhile (!isBlank ·)) ∧
      Takes cb c src wordPart n v (runEnd (!isBlank ·) src n) := by
  obtain ⟨v, hv, hrun⟩ := word_takes h
  exact ⟨v, hv, Parser.run_convert_of_succeeded hrun rfl⟩

theorem wordPart_fails (hc : c.registry = registry)
    (h : (src.drop n).takeWhile (!isBlank ·) = []) :
    FailsWith cb c src wordPart n noWord n := by
  have he : noWord.kindOf ∈ absorbed := by decide
  have hi : Kind.wordError.isInfallible = false := by decide
  obtain ⟨e', hw, hr⟩ := retarget_wraps hc hi he
  refine ⟨e', n, hw, ?_⟩
  rw [wordPart, Parser.run_convert_of_failed (run_word_of_nil h) rfl]
  exact hr

/-- The place after a word and the blanks behind it, where the sign is due. -/
def signPlace (src : List Char) (n : Nat) : Nat := runEnd isBlank src (runEnd (!isBlank ·) src n)

theorem drop_signPlace :
    src.drop (signPlace src n) = ((src.drop n).dropWhile (!isBlank ·)).dropWhile isBlank := by
  rw [signPlace, drop_runEnd, drop_runEnd]

/-- The place after the sign and the blanks behind it, where the value is due. -/
def valuePlace (src : List Char) (n : Nat) : Nat := runEnd isBlank src (signPlace src n + 1)

theorem namePart_takes {name r : List Char} (h : scanName (src.drop n) = some (name, r)) :
    ∃ v, spanText v = String.ofList name ∧ src.drop (valuePlace src n) = r ∧
      Takes cb c src namePart n v (valuePlace src n) := by
  obtain ⟨rfl, hne, r', hr', rfl⟩ := scanName_eq_some h
  obtain ⟨v, hv, h₁⟩ := wordPart_takes hne
  rw [← drop_signPlace] at hr'
  have hafter : src.drop (signPlace src n + 1) = r' := by
    rw [← List.drop_drop, hr']
    rfl
  refine ⟨v, hv, ?_, ?_⟩
  · rw [valuePlace, drop_runEnd, hafter]
  · exact ((h₁.after (whitespace_takes _ _)).after (sign_takes hr')).after (whitespace_takes _ _)

section Failing

variable (hc : c.registry = registry)

include hc

theorem namePart_fails_of_nil (h : (src.drop n).takeWhile (!isBlank ·) = []) :
    FailsWith cb c src namePart n noWord n :=
  (((wordPart_fails hc h).after rfl).after rfl).after rfl

theorem namePart_fails_of_ne (h : (src.drop n).takeWhile (!isBlank ·) ≠ [])
    (hsign : ∀ r, src.drop (signPlace src n) ≠ '=' :: r) :
    FailsWith cb c src namePart n (noSign (src.drop (signPlace src n))) (signPlace src n) := by
  obtain ⟨v, -, h₁⟩ := wordPart_takes h
  have hi : Kind.takeError.isInfallible = false := by decide
  have he : Kind.takeError ∈ absorbed := by decide
  exact FailsWith.after rfl
    ((h₁.after (whitespace_takes _ _)).after_second rfl hc (run_sign_of_ne hsign) rfl hi he)

end Failing

section Value

variable {rounds depth : Nat}

theorem valuePart_takes {k : Int} {r : List Char} (h : scanValue (src.drop n) = some (k, r)) :
    ∃ m, src.drop m = r ∧
      Takes (host.callbacks rounds depth) c src valuePart n (.int k) m := by
  obtain ⟨hne, hk, rfl⟩ := scanValue_eq_some h
  obtain ⟨v, hv, h₁⟩ := wordPart_takes hne
  have hcall : (host.callbacks rounds depth).call .number v c
      (place src (runEnd (!isBlank ·) src n)) =
        (.returned (.int k), place src (runEnd (!isBlank ·) src n)) := by
    rw [call_number, hv, Value.toInteger_of_read (by rw [String.toList_ofList]; exact hk)]
    rfl
  have h₂ : Takes (host.callbacks rounds depth) c src
      (.refine wordPart .number (.kind .valueError)) n (.int k) (runEnd (!isBlank ·) src n) :=
    (Parser.run_refine_of_returned h₁ rfl rfl hcall).trans rfl
  exact ⟨signPlace src n, drop_signPlace, h₂.after (whitespace_takes _ _)⟩

variable (hc : c.registry = registry)

include hc

theorem valuePart_fails_of_nil (h : (src.drop n).takeWhile (!isBlank ·) = []) :
    FailsWith (host.callbacks rounds depth) c src valuePart n noWord n :=
  ((wordPart_fails hc h).refine rfl).after rfl

/-- A word that is no number is rejected where it ends. -/
theorem valuePart_fails_of_fault (h : (src.drop n).takeWhile (!isBlank ·) ≠ []) {f : Fault}
    (hf : (Value.str (String.ofList ((src.drop n).takeWhile (!isBlank ·))) :
      Value Function).toInteger = .error f)
    (hkind : f.kind = .valueError) :
    FailsWith (host.callbacks rounds depth) c src valuePart n f.exception
      (runEnd (!isBlank ·) src n) := by
  obtain ⟨v, hv, h₁⟩ : ∃ v, spanText v = _ ∧
      Takes (host.callbacks rounds depth) c src wordPart n v _ := wordPart_takes h
  have hcall : (host.callbacks rounds depth).call .number v c
      (place src (runEnd (!isBlank ·) src n)) =
        (.raised f.exception, place src (runEnd (!isBlank ·) src n)) := by
    rw [call_number, hv, hf]
    rfl
  have he : (f.exception : Value Function).kindOf = .valueError := hkind
  have hmem : Kind.valueError ∈ absorbed := by decide
  have hcatch : (Declared.kind .valueError : Declared Function).catches .valueError = true := by decide
  exact FailsWith.after rfl (h₁.refine_raised rfl hc hcall (by rw [he, hcatch]) (by rwa [he]))

end Value

end ParserAlgebra.Assignment
