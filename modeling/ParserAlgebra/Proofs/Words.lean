import ParserAlgebra.Proofs.Confinement
import ParserAlgebra.Proofs.Flaws

/-!
# Splitting a text into words

Two parsers split a text at its blanks: a repetition of words, each with the blanks behind it, and words
that are separated by blanks. Both hand out the words of the text (`Splits`), which are the runs of other
characters that cannot be made longer; their texts are what is left of the pieces between single blanks
when the empty ones are left out (`words`). The first parser ends at the end of the text, the second one
behind the last word (`Parser.split_words`).
-/

namespace ParserAlgebra

open ParserAlgebra.Assignment (runEnd drop_runEnd Stops stops_dropWhile stops_of_takeWhile_eq_nil
  eq_nil_of_stops isWord_takeWhile)

variable {src : List Char} {f : Char → Bool} {n k : Nat} {ws : List Span} {w : Span}

/-! ## The pieces of a text -/

/-- The pieces of a text between its blanks, without the empty ones. -/
noncomputable def words (l : List Char) : List (List Char) := (l.splitOnP isBlank).filter (· ≠ [])

theorem words_nil : words [] = [] := by simp [words]

theorem words_cons_of_blank {x : Char} (hx : isBlank x = true) (l : List Char) :
    words (x :: l) = words l := by
  simp [words, List.splitOnP_cons_eq_if_modifyHead, hx]

theorem words_dropWhile (l : List Char) : words (l.dropWhile isBlank) = words l := by
  induction l with
  | nil => rfl
  | cons x l ih =>
    by_cases hx : isBlank x = true
    · rw [List.dropWhile_cons_of_pos hx, words_cons_of_blank hx, ih]
    · rw [List.dropWhile_cons_of_neg hx]

/-- The first word of a text that begins with one is as long as possible. -/
theorem words_of_word {l : List Char} (h : l.takeWhile (!isBlank ·) ≠ []) :
    words l = l.takeWhile (!isBlank ·) :: words (l.dropWhile (!isBlank ·)) := by
  have hl : l.takeWhile (!isBlank ·) ++ l.dropWhile (!isBlank ·) = l :=
    List.takeWhile_append_dropWhile
  have hword : ∀ x ∈ l.takeWhile (!isBlank ·), isBlank x = false := (isWord_takeWhile h).2
  have hstops := stops_dropWhile (!isBlank ·) l
  rcases hrest : l.dropWhile (!isBlank ·) with _ | ⟨x, r⟩ <;> rw [hrest] at hl hstops
  · rw [List.append_nil] at hl
    rw [hl] at h hword ⊢
    simp [words, List.splitOnP_eq_singleton hword, h]
  · have hx : isBlank x = true := by simpa using hstops x rfl
    have hsplit : l.splitOnP isBlank = l.takeWhile (!isBlank ·) :: r.splitOnP isBlank := by
      conv_lhs => rw [← hl]
      exact List.splitOnP_append_cons_of_forall_mem hword x hx r
    rw [words_cons_of_blank hx, words, hsplit, List.filter_cons_of_pos (by simpa using h), words]

/-! ## Runs of characters -/

theorem le_runEnd : n ≤ runEnd f src n := Nat.le_add_right ..

theorem runEnd_le (h : n ≤ src.length) : runEnd f src n ≤ src.length := by
  have hle : ((src.drop n).takeWhile f).length ≤ (src.drop n).length :=
    (List.takeWhile_prefix f).length_le
  rw [List.length_drop] at hle
  unfold runEnd
  omega

theorem exists_of_lt_runEnd (hk : n ≤ k) (hend : k < runEnd f src n) :
    ∃ x, src[k]? = some x ∧ f x = true := by
  have hlt : k - n < ((src.drop n).takeWhile f).length := by
    unfold runEnd at hend
    omega
  refine ⟨((src.drop n).takeWhile f)[k - n], ?_, List.mem_takeWhile_imp (List.getElem_mem hlt)⟩
  calc src[k]? = (src.drop n)[k - n]? := by rw [List.getElem?_drop, Nat.add_sub_cancel' hk]
    _ = ((src.drop n).takeWhile f ++ (src.drop n).dropWhile f)[k - n]? := by
        rw [List.takeWhile_append_dropWhile]
    _ = ((src.drop n).takeWhile f)[k - n]? := List.getElem?_append_left hlt
    _ = some _ := List.getElem?_eq_getElem hlt

theorem stops_at_runEnd {x : Char} (h : src[runEnd f src n]? = some x) : f x = false := by
  refine stops_dropWhile f (src.drop n) x ?_
  rw [← drop_runEnd, List.head?_drop]
  exact h

/-- Where the word at a place ends, which is that place if there is none. -/
abbrev wordEnd (src : List Char) (n : Nat) : Nat := runEnd (!isBlank ·) src n

/-- Where the blanks at a place end. -/
abbrev gapEnd (src : List Char) (n : Nat) : Nat := runEnd isBlank src n

/-- A run of characters other than blanks that cannot be made longer. -/
structure Span.IsWordOf (src : List Char) (w : Span) : Prop where
  source : w.source = src
  within : w.start < w.stop ∧ w.stop ≤ src.length
  inside : ∀ k x, w.start ≤ k → k < w.stop → src[k]? = some x → isBlank x = false
  before : ∀ k x, k + 1 = w.start → src[k]? = some x → isBlank x = true
  behind : ∀ x, src[w.stop]? = some x → isBlank x = true

namespace Span.IsWordOf

variable {v : Span}

theorem get (hw : w.IsWordOf src) (hk : w.start ≤ k) (hend : k < w.stop) :
    ∃ x, src[k]? = some x ∧ isBlank x = false := by
  have hlt : k < src.length := Nat.lt_of_lt_of_le hend hw.within.2
  have hx : src[k]? = some src[k] := List.getElem?_eq_getElem hlt
  exact ⟨_, hx, hw.inside k _ hk hend hx⟩

/-- Between two words is a blank. -/
theorem apart (hv : v.IsWordOf src) (hw : w.IsWordOf src) (h : v.start < w.start) :
    v.stop < w.start := by
  obtain ⟨x, hx, hword⟩ := hw.get (Nat.le_refl _) hw.within.1
  rcases Nat.lt_trichotomy v.stop w.start with hlt | heq | hgt
  · exact hlt
  · rw [hv.behind x (heq ▸ hx)] at hword
    cases hword
  · obtain ⟨y, hy, hword'⟩ := hv.get (k := w.start - 1) (by omega) (by omega)
    rw [hw.before (w.start - 1) y (by omega) hy] at hword'
    cases hword'

theorem stop_le (hv : v.IsWordOf src) (hw : w.IsWordOf src) (h : v.start = w.start) :
    w.stop ≤ v.stop := by
  by_contra hlt
  have hstart := hv.within.1
  obtain ⟨x, hx, hword⟩ := hw.get (k := v.stop) (by omega) (by omega)
  rw [hv.behind x hx] at hword
  cases hword

/-- No word begins among the blanks. -/
theorem gapEnd_le (hw : w.IsWordOf src) (h : n ≤ w.start) : gapEnd src n ≤ w.start := by
  refine Nat.le_of_not_lt fun hlt => ?_
  obtain ⟨x, hx, hword⟩ := hw.get (Nat.le_refl _) hw.within.1
  obtain ⟨y, hy, hblank⟩ := exists_of_lt_runEnd h hlt
  rw [Option.some.inj (hx.symm.trans hy), hblank] at hword
  cases hword

theorem eq_of_start (hv : v.IsWordOf src) (hw : w.IsWordOf src) (h : v.start = w.start) : v = w := by
  have hstop : v.stop = w.stop := Nat.le_antisymm (hw.stop_le hv h.symm) (hv.stop_le hw h)
  have hsource : v.source = w.source := hv.source.trans hw.source.symm
  cases v
  cases w
  simp_all

end Span.IsWordOf

theorem chars_runEnd : Span.chars ⟨src, n, runEnd f src n⟩ = (src.drop n).takeWhile f := by
  rw [Span.chars, runEnd, Nat.add_sub_cancel_left]
  calc (src.drop n).take ((src.drop n).takeWhile f).length
      = ((src.drop n).takeWhile f ++ (src.drop n).dropWhile f).take
          ((src.drop n).takeWhile f).length := by
        rw [List.takeWhile_append_dropWhile]
    _ = (src.drop n).takeWhile f := List.take_left

theorem lt_runEnd_iff : n < runEnd f src n ↔ (src.drop n).takeWhile f ≠ [] := by
  rw [← List.length_pos_iff_ne_nil, runEnd]
  omega

/-- If a word begins at the place `n`, then a blank is before it or nothing is. -/
def AfterBlank (src : List Char) (n : Nat) : Prop :=
  n < src.length → ∀ k x, k + 1 = n → src[k]? = some x → isBlank x = true

/-- From the place `n` on the words are `ws`. -/
inductive Splits (src : List Char) : Nat → List Span → Prop
  | nil : Splits src src.length []
  | cons {n : Nat} {ws : List Span} (h : (src.drop n).takeWhile (!isBlank ·) ≠ [])
      (rest : Splits src (gapEnd src (wordEnd src n)) ws) :
      Splits src n (⟨src, n, wordEnd src n⟩ :: ws)

namespace Splits

theorem exists_of_le {n : Nat} (h : n ≤ src.length) (hn : Stops isBlank (src.drop n)) :
    ∃ ws, Splits src n ws := by
  by_cases hword : (src.drop n).takeWhile (!isBlank ·) = []
  · have hend : src.drop n = [] := eq_nil_of_stops (stops_of_takeWhile_eq_nil hword) hn
    obtain rfl : n = src.length := Nat.le_antisymm h (List.drop_eq_nil_iff.1 hend)
    exact ⟨[], .nil⟩
  · have hlt : n < wordEnd src n := lt_runEnd_iff.2 hword
    have hle : wordEnd src n ≤ src.length := runEnd_le h
    have hgap : wordEnd src n ≤ gapEnd src (wordEnd src n) := le_runEnd
    have hstops : Stops isBlank (src.drop (gapEnd src (wordEnd src n))) := by
      rw [drop_runEnd]
      exact stops_dropWhile _ _
    obtain ⟨ws, hws⟩ := exists_of_le (n := gapEnd src (wordEnd src n)) (runEnd_le hle) hstops
    exact ⟨_, .cons hword hws⟩
termination_by src.length - n

theorem texts (h : Splits src n ws) : ws.map Span.chars = words (src.drop n) := by
  induction h with
  | nil => rw [List.drop_length, words_nil, List.map_nil]
  | @cons n ws h _ ih =>
    rw [List.map_cons, ih, drop_runEnd, words_dropWhile, drop_runEnd, words_of_word h, chars_runEnd]

/-- A word that follows another one follows a blank. -/
theorem afterBlank (src : List Char) (n : Nat) :
    AfterBlank src (gapEnd src (wordEnd src n)) := by
  intro hlt k x hk hx
  set m := wordEnd src n with hm
  have hle : m ≤ gapEnd src m := le_runEnd
  rcases Nat.lt_or_eq_of_le hle with hgap | heq
  · obtain ⟨y, hy, hblank⟩ : ∃ y, src[k]? = some y ∧ isBlank y = true :=
      exists_of_lt_runEnd (by omega : m ≤ k) (show k < gapEnd src m by omega)
    rwa [Option.some.inj (hx.symm.trans hy)]
  · -- No character stops both the first word and the blanks behind it.
    obtain ⟨y, hy⟩ : ∃ y, src[gapEnd src m]? = some y := ⟨_, List.getElem?_eq_getElem hlt⟩
    have hblank : isBlank y = false := stops_at_runEnd hy
    rw [← heq] at hy
    have hword : (!isBlank y) = false := stops_at_runEnd (f := (!isBlank ·)) hy
    simp [hblank] at hword

theorem isWordOf_runEnd (hle : n ≤ src.length) (h : (src.drop n).takeWhile (!isBlank ·) ≠ [])
    (hbefore : AfterBlank src n) :
    Span.IsWordOf src ⟨src, n, wordEnd src n⟩ where
  source := rfl
  within := ⟨lt_runEnd_iff.2 h, runEnd_le hle⟩
  inside k x hk hend hx := by
    obtain ⟨y, hy, hword⟩ := exists_of_lt_runEnd hk hend
    obtain rfl := Option.some.inj (hx.symm.trans hy)
    simpa using hword
  before := hbefore (Nat.lt_of_lt_of_le (lt_runEnd_iff.2 h) (runEnd_le hle))
  behind x hx := by simpa using stops_at_runEnd hx

/-- The words in the row are those of the text, and they are in order. -/
theorem complete (h : Splits src n ws) (hle : n ≤ src.length) (hbefore : AfterBlank src n) :
    (∀ w, w ∈ ws ↔ w.IsWordOf src ∧ n ≤ w.start) ∧ ws.Pairwise fun v w => v.stop < w.start := by
  induction h with
  | nil =>
    refine ⟨fun w => ⟨fun h => absurd h List.not_mem_nil, fun ⟨hw, hn⟩ => ?_⟩, .nil⟩
    have := hw.within
    omega
  | @cons n ws h _ ih =>
    have hlt : n < wordEnd src n := lt_runEnd_iff.2 h
    have hend : wordEnd src n ≤ src.length := runEnd_le hle
    have hgap : wordEnd src n ≤ gapEnd src (wordEnd src n) := le_runEnd
    have hfirst := isWordOf_runEnd hle h hbefore
    obtain ⟨hmem, hordered⟩ := ih (runEnd_le hend) (afterBlank src n)
    refine ⟨fun w => ?_, .cons (fun w hw => ?_) hordered⟩
    · rw [List.mem_cons, hmem]
      constructor
      · rintro (rfl | ⟨hw, hn⟩)
        · exact ⟨hfirst, Nat.le_refl n⟩
        · exact ⟨hw, by omega⟩
      · rintro ⟨hw, hn⟩
        rcases Nat.lt_or_eq_of_le hn with hn | hn
        · exact .inr ⟨hw, hw.gapEnd_le (Nat.le_of_lt (hfirst.apart hw hn))⟩
        · exact .inl (hw.eq_of_start hfirst hn.symm)
    · obtain ⟨hw, hn⟩ := (hmem w).1 hw
      exact hfirst.apart hw (show n < w.start by omega)

theorem add_length_le (h : Splits src n ws) (hle : n ≤ src.length) :
    n + ws.length ≤ src.length := by
  induction h with
  | nil => exact hle
  | @cons n ws h _ ih =>
    have hlt : n < wordEnd src n := lt_runEnd_iff.2 h
    have hgap : wordEnd src n ≤ gapEnd src (wordEnd src n) := le_runEnd
    have hrest := ih (runEnd_le (runEnd_le hle))
    rw [List.length_cons]
    omega

/-- The row that begins behind the blanks at the start is that of all words. -/
theorem exists_all (src : List Char) : ∃ ws, Splits src (gapEnd src 0) ws ∧
    ws.length ≤ src.length ∧ (∀ w, w ∈ ws ↔ w.IsWordOf src) ∧
    (ws.Pairwise fun v w => v.stop < w.start) ∧ ws.map Span.chars = words src := by
  have hle : gapEnd src 0 ≤ src.length := runEnd_le (Nat.zero_le _)
  have hstops : Stops isBlank (src.drop (gapEnd src 0)) := by
    rw [drop_runEnd]
    exact stops_dropWhile _ _
  have hafter : AfterBlank src (gapEnd src 0) := by
    intro _ k x hk hx
    obtain ⟨y, hy, hblank⟩ : ∃ y, src[k]? = some y ∧ isBlank y = true :=
      exists_of_lt_runEnd (Nat.zero_le k) (show k < gapEnd src 0 by omega)
    rwa [Option.some.inj (hx.symm.trans hy)]
  obtain ⟨ws, hws⟩ := exists_of_le hle hstops
  obtain ⟨hmem, hordered⟩ := hws.complete hle hafter
  have hlength := hws.add_length_le hle
  refine ⟨ws, hws, by omega, fun w => ?_, hordered, ?_⟩
  · exact (hmem w).trans (and_iff_left_of_imp fun hw => hw.gapEnd_le (Nat.zero_le _))
  · rw [hws.texts, drop_runEnd, words_dropWhile, List.drop_zero]

end Splits

/-! ## The two parsers -/

variable {ω σ : Type}

/-- Where the last of the words ends, or the place `n` if there are none. -/
def lastStop (ws : List Span) (n : Nat) : Nat := (ws.getLast?.map Span.stop).getD n

theorem lastStop_cons (w : Span) (ws : List Span) (n : Nat) :
    lastStop (w :: ws) n = lastStop ws w.stop := by
  rw [lastStop, List.getLast?_cons, lastStop]
  cases ws.getLast? <;> rfl

/-- The state with the cursor at another place of the input. -/
def State.placed (s : State ω σ) (n : Nat) : State ω σ := s.backTo { pos := n }

@[simp] theorem State.backTo_placed (s : State ω σ) (m n : Nat) :
    (s.placed m).backTo (s.placed n).cursor.toMark = s.placed n := rfl

namespace Parser

variable [HostObject ω] {s : State ω σ}

/-- A row of attempts, and one that fails where the row ends. -/
theorem looped_row {c : Context ω} {ch : Level.Channel} {message : String}
    {attempt : Action ω σ (Outcome ω)} {rounds : Nat} {done vs : List (Value ω)} {t u : State ω σ}
    {res : Outcome ω} (h : Strides c Elsewhere attempt s vs t) (hend : attempt c t = (.returned res, u))
    (ha : res.succeeded = .ok false) (hrounds : vs.length < rounds) :
    looped ch message attempt rounds done c s =
      (.returned (done.reverse ++ vs), u.backTo t.cursor.toMark) := by
  obtain ⟨k, rfl⟩ : ∃ k, rounds = k + 1 + vs.length := ⟨rounds - vs.length - 1, by omega⟩
  rw [looped_of_strides h, looped, Action.bind_apply, Action.save_apply]
  simp [Action.bind_apply, Action.map_apply, hend, ha]

variable (cb : Callbacks ω σ) (c : Context ω)

/-- A word and the blanks behind it. -/
def wordItem : Parser ω := .map (.seq .word .whitespace) .first

/-- Words up to the end of the text. -/
def wordRow : Parser ω := .map (.seq .whitespace (.many wordItem)) .second

/-- Words with blanks between them. -/
def wordsBetween : Parser ω := .map (.seq .whitespace (.sepBy .word .whitespace)) .second

omit [HostObject ω] in
theorem skipRun_placed (hs : s.cursor.source = src) :
    skipRun f c (s.placed n) =
      (.returned ((src.drop n).takeWhile f).length, s.placed (runEnd f src n)) := by
  have hrest : (s.placed n).cursor.rest = src.drop n := by rw [← hs]; rfl
  rw [skipRun_apply, hrest]
  split
  · next h => rw [runEnd, h]; rfl
  · rfl

theorem run_whitespace_placed (hs : s.cursor.source = src) :
    whitespace.run cb c (s.placed n) =
      (.returned (.ok (.int ((src.drop n).takeWhile isBlank).length)),
        s.placed (gapEnd src n)) := by
  rw [run, Action.bind_apply, skipRun_placed c hs]
  rfl

theorem run_word_placed (hs : s.cursor.source = src)
    (h : (src.drop n).takeWhile (!isBlank ·) ≠ []) :
    word.run cb c (s.placed n) =
      (.returned (.ok (.span ⟨src, n, wordEnd src n⟩)),
        s.placed (wordEnd src n)) := by
  have hlen : ((src.drop n).takeWhile (!isBlank ·)).length ≠ 0 := by simpa using h
  rw [run, Action.bind_apply, Action.cursor_apply]
  dsimp only
  rw [Action.bind_apply, skipRun_placed c hs]
  dsimp only
  rw [if_neg hlen, ← hs]
  rfl

theorem run_word_placed_end (hs : s.cursor.source = src) :
    word.run cb c (s.placed src.length) =
      (.returned (.err (.exception .wordError [] .nil) (.int src.length)), s.placed src.length) := by
  rw [run, Action.bind_apply, Action.cursor_apply]
  dsimp only
  rw [Action.bind_apply, skipRun_placed c hs, runEnd, List.drop_length]
  rfl

theorem run_wordItem_placed (hs : s.cursor.source = src)
    (h : (src.drop n).takeWhile (!isBlank ·) ≠ []) :
    wordItem.run cb c (s.placed n) =
      (.returned (.ok (.span ⟨src, n, wordEnd src n⟩)),
        s.placed (gapEnd src (wordEnd src n))) := by
  have hpair := run_seq_of_both_succeeded (run_word_placed cb c hs h) rfl rfl
    (run_whitespace_placed cb c hs) rfl rfl
  rw [wordItem, run_map_of_succeeded hpair rfl rfl]
  rfl

theorem run_wordItem_placed_end (hs : s.cursor.source = src) :
    ∃ a, a.succeeded = .ok false ∧
      wordItem.run cb c (s.placed src.length) = (.returned a, s.placed src.length) := by
  let e : Value ω := .exception .wordError [] .nil
  have hpair : (seq word whitespace).run cb c (s.placed src.length) =
      (.returned (.err e (.int src.length)), s.placed src.length) := by
    rw [run_seq_of_failed (run_word_placed_end cb c hs) rfl]
    have hdeclared : (word : Parser ω).declares = .kind .wordError := rfl
    have htarget : (seq word whitespace : Parser ω).declares = .kind .wordError := by
      rw [declares, hdeclared]
      rfl
    have hadmits : (seq word whitespace : Parser ω).declares.Admits e := by
      rw [htarget]
      exact Declared.admits_kind.2 (.inr (show Kind.wordError.isA .wordError = true by decide))
    rw [hdeclared, retarget_of_fallible (e := e) (by decide) rfl, Conversion.coerce_of_admits hadmits]
    rfl
  exact ⟨_, rfl, run_map_of_failed hpair rfl⟩

theorem elsewhere_placed {m : Nat} (h : n ≠ m) :
    Elsewhere (s.placed n).cursor.toMark (s.placed m).cursor.toMark := by
  change Mark.equal ⟨m, none⟩ ⟨n, none⟩ = .ok false
  simp [h.symm]

theorem strides_items (hs : s.cursor.source = src) (h : Splits src n ws) :
    Strides c Elsewhere (wordItem.run cb) (s.placed n) (ws.map .span) (s.placed src.length) := by
  induction h with
  | nil => exact .nil _
  | @cons n ws h _ ih =>
    have hlt : n < wordEnd src n := lt_runEnd_iff.2 h
    have hgap : wordEnd src n ≤ gapEnd src (wordEnd src n) := le_runEnd
    exact .cons (run_wordItem_placed cb c hs h) rfl rfl (elsewhere_placed (by omega)) ih

theorem run_pairing_placed (hs : s.cursor.source = src) (m : Nat) :
    pairing (word.run cb) (whitespace.run cb) c (s.placed m) =
      word.run cb c (s.placed (gapEnd src m)) := by
  rw [pairing, Action.bind_apply, run_whitespace_placed cb c hs]
  rfl

/-- Behind a word at `m` the pairs of blanks and a word go on to the end of the last word, and only
blanks follow. -/
theorem strides_pairs (hs : s.cursor.source = src) {m : Nat} (hm : gapEnd src m = n)
    (h : Splits src n ws) :
    Strides c Elsewhere (pairing (word.run cb) (whitespace.run cb)) (s.placed m)
      (ws.map .span) (s.placed (lastStop ws m)) ∧ gapEnd src (lastStop ws m) = src.length := by
  induction h generalizing m with
  | nil => exact ⟨.nil _, hm⟩
  | @cons n ws h _ ih =>
    have hgap : m ≤ n := hm ▸ le_runEnd
    have hlt : n < wordEnd src n := lt_runEnd_iff.2 h
    obtain ⟨hstrides, hend⟩ := ih rfl
    have hpair := run_pairing_placed cb c hs m
    rw [hm, run_word_placed cb c hs h] at hpair
    rw [lastStop_cons]
    exact ⟨.cons hpair rfl rfl (elsewhere_placed (by omega)) hstrides, hend⟩

theorem run_many_placed (hs : s.cursor.source = src) (h : Splits src n ws)
    (hrounds : ws.length < cb.rounds) :
    (many wordItem).run cb c (s.placed n) =
      (.returned (.ok (.list (ws.map .span))), s.placed src.length) := by
  obtain ⟨a, ha, hend⟩ := run_wordItem_placed_end cb c hs
  rw [run, Action.bind_apply, repeated_eq_looped,
    looped_row (strides_items cb c hs h) hend ha (by rwa [List.length_map])]
  rfl

theorem run_sepBy_placed (hs : s.cursor.source = src) (h : Splits src n ws)
    (hrounds : ws.length < cb.rounds) :
    (sepBy word whitespace).run cb c (s.placed n) =
      (.returned (.ok (.list (ws.map .span))),
        s.placed (lastStop ws n)) := by
  rw [run, Action.bind_apply, Action.save_apply]
  dsimp only
  rw [Action.bind_apply, runSepBy1, Action.bind_apply]
  cases h with
  | nil =>
    rw [run_word_placed_end cb c hs]
    rfl
  | @cons _ ws h rest =>
    obtain ⟨hstrides, hend⟩ := strides_pairs cb c hs rfl rest
    have hfail := run_pairing_placed cb c hs
      (lastStop ws (wordEnd src n))
    rw [hend, run_word_placed_end cb c hs] at hfail
    have hlength : (ws.map (Value.span (ω := ω))).length < cb.rounds := by
      rw [List.length_cons] at hrounds
      rw [List.length_map]
      omega
    have hrow : separated (word : Parser ω).name (word.run cb) (whitespace.run cb) cb.rounds
        [.span ⟨src, n, wordEnd src n⟩] c (s.placed (wordEnd src n)) =
        (.returned (.span ⟨src, n, wordEnd src n⟩ :: ws.map .span),
          s.placed (lastStop ws (wordEnd src n))) := by
      rw [separated_eq_looped]
      exact looped_row (u := s.placed src.length) hstrides hfail rfl hlength
    rw [run_word_placed cb c hs h]
    simp [Action.bind_apply, Action.map_apply, hrow, lastStop_cons]

/-- Both parsers can be put together, and on every text both succeed with its words in order. The one
ends at the end of the text, the other behind the last word, or behind the blanks at the start if
there is no word. -/
theorem split_words (hs : s.cursor = .ofList src) (hrounds : src.length < cb.rounds) :
    mkAfter .word .whitespace c s = (.returned wordItem, s) ∧
    mkBefore .whitespace (.many wordItem) c s = (.returned wordRow, s) ∧
    mkBefore .whitespace (.sepBy .word .whitespace) c s = (.returned wordsBetween, s) ∧
    ∃ ws : List Span,
      (∀ w, w ∈ ws ↔ w.IsWordOf src) ∧ (ws.Pairwise fun v w => v.stop < w.start) ∧
      ws.map Span.chars = words src ∧
      wordRow.run cb c s = (.returned (.ok (.list (ws.map .span))), s.placed src.length) ∧
      wordsBetween.run cb c s = (.returned (.ok (.list (ws.map .span))),
        s.placed (lastStop ws (src.takeWhile isBlank).length)) := by
  have hstart : s = s.placed 0 := by
    obtain ⟨_, _, _⟩ := s
    cases hs
    rfl
  have hsource : s.cursor.source = src := congrArg Cursor.source hs
  obtain ⟨ws, hws, hle, hall, hordered, htexts⟩ := Splits.exists_all src
  have hlength : ws.length < cb.rounds := Nat.lt_of_le_of_lt hle hrounds
  have hblanks : (src.takeWhile isBlank).length = gapEnd src 0 := by simp [runEnd]
  have hwhitespace := run_whitespace_placed cb c (n := 0) hsource
  have hrow := run_seq_of_both_succeeded hwhitespace rfl rfl (run_many_placed cb c hsource hws hlength)
    rfl rfl
  have hbetween := run_seq_of_both_succeeded hwhitespace rfl rfl
    (run_sepBy_placed cb c hsource hws hlength) rfl rfl
  rw [← hstart] at hrow hbetween
  refine ⟨mkAfter_returned.2 ⟨rfl, ?_, rfl⟩, mkBefore_returned.2 ⟨rfl, ?_, rfl⟩,
    mkBefore_returned.2 ⟨rfl, ?_, rfl⟩, ws, hall, hordered, htexts, ?_, ?_⟩
  · exact ⟨.wordError, rfl, .inr (.inr rfl)⟩
  · exact ⟨.infallible, rfl, .inl (by decide)⟩
  · exact ⟨.infallible, rfl, .inl (by decide)⟩
  · rw [wordRow, run_map_of_succeeded hrow rfl rfl]
    rfl
  · rw [wordsBetween, run_map_of_succeeded hbetween rfl rfl, hblanks]
    rfl

/-- Blanks of several kinds before, between and behind two words. -/
theorem split_words_blanks :
    let cb := Assignment.host.callbacks 8 1
    let c : Context Assignment.Function := ⟨.empty, {}, .warning⟩
    let src := [Char.ofNat 0xA0, 'a', 'b', ' ', '\t', 'c', Char.ofNat 0x3000]
    let s : State Assignment.Function Unit := ⟨.ofList src, [], ()⟩
    s.cursor = .ofList src ∧ src.length < cb.rounds ∧
      ∃ ws : List Span, ws.map Span.chars = [['a', 'b'], ['c']] ∧
        wordRow.run cb c s = (.returned (.ok (.list (ws.map .span))), s.placed 7) ∧
        wordsBetween.run cb c s = (.returned (.ok (.list (ws.map .span))), s.placed (lastStop ws 1)) := by
  intro cb c src s
  have hrounds : src.length < cb.rounds := by decide
  have hwords : words src = [['a', 'b'], ['c']] := by decide +kernel
  have hblanks : (src.takeWhile isBlank).length = 1 := by decide +kernel
  obtain ⟨-, -, -, ws, -, -, htexts, hrow, hbetween⟩ :=
    split_words cb c (s := s) rfl hrounds
  rw [hwords] at htexts
  rw [hblanks] at hbetween
  exact ⟨rfl, hrounds, ws, htexts, hrow, hbetween⟩

end Parser

end ParserAlgebra
