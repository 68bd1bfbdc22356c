import ParserAlgebra.Script.Call
import ParserAlgebra.Proofs.Building
import ParserAlgebra.Proofs.Conversions
import ParserAlgebra.Proofs.Steps

/-!
# A grammar that refers to itself

The grammar `nested := '(' nested ')' | 'x'` refers to itself by a deferred parser, whose function makes the
grammar anew for the next pair of brackets. A host program in which it does so `Recurs`.

The grammar reads the words `Nested.word n` and nothing else: where one of them comes next it is read whole
(`run_grammar_of_word`), by induction on the pairs of brackets. Elsewhere the first alternative fails, with
the cursor anywhere, and the second one at the start (`run_grammar_of_not_word`), by induction on what is
left of the input. That is also how deep the recursion goes.
-/

namespace ParserAlgebra.Nested

open ParserAlgebra.Parser

variable {ω σ : Type}

/-- An `x` in `n` pairs of brackets. -/
def word (n : Nat) : List Char := List.replicate n '(' ++ 'x' :: List.replicate n ')'

theorem word_zero_append (rest : List Char) : word 0 ++ rest = 'x' :: rest := rfl

theorem word_succ_append (n : Nat) (rest : List Char) :
    word (n + 1) ++ rest = '(' :: (word n ++ ')' :: rest) := by
  have hlast : List.replicate (n + 1) ')' ++ rest = List.replicate n ')' ++ ')' :: rest := by
    simp [List.replicate_succ']
  rw [word, word, List.append_assoc, List.cons_append, hlast]
  simp [List.replicate_succ]

theorem length_word (n : Nat) : (word n).length = 2 * n + 1 := by
  simp only [word, List.length_append, List.length_cons, List.length_replicate]
  omega

variable [HostObject ω]

/-! ## The grammar -/

/-- The alternative in brackets. What is in the brackets is deferred, and declared to fail with errors of
the kind `k`. -/
def bracketed (k : Kind) (f : ω) : Parser ω :=
  .map (.seq (.map (.seq (.take "(") (.later (.kind k) f)) .second) (.take ")")) .first

def grammar (k : Kind) (f : ω) : Parser ω := .alt (bracketed k f) (.take "x")

/-- Builds the grammar of its parts. -/
def make (k : Kind) (f : ω) : Action ω σ (Parser ω) := do
  let opened ← mkBefore (.take "(") (.later (.kind k) f)
  let closed ← mkAfter opened (.take ")")
  mkChoice [.parser closed, .parser (.take "x")]

variable {c : Context ω} {k : Kind} {f : ω}

/-- Whether the deferred parser can stand in the grammar is all that is checked. -/
theorem make_returned (hk : c.registry.Joins (.kind .takeError) (.kind k)) (s : State ω σ) :
    make k f c s = (.returned (grammar k f), s) := by
  have hjoins : c.registry.Joins (.kind .takeError) (.kind .takeError) :=
    ⟨.takeError, rfl, .inr (.inr (by rw [Registry.canConvert_kind]; rfl))⟩
  refine Action.bind_returned.2 ⟨_, _, mkBefore_returned.2 ⟨rfl, hk, rfl⟩, ?_⟩
  refine Action.bind_returned.2 ⟨_, _, mkAfter_returned.2 ⟨rfl, hjoins, rfl⟩, ?_⟩
  exact mkChoice_returned.2 ⟨_, _, rfl, .cons rfl .nil, ⟨hjoins, trivial⟩, rfl, rfl⟩

/-! ## Moving on, and what is missing -/

/-- The state `n` characters further on. -/
def onward (s : State ω σ) (n : Nat) (own : σ) : State ω σ :=
  { s.backTo { pos := s.cursor.pos + n } with own }

omit [HostObject ω] in
@[simp] theorem onward_onward (s : State ω σ) (m n : Nat) (own own' : σ) :
    onward (onward s m own) n own' = onward s (m + n) own' := by
  change ({ s.backTo { pos := s.cursor.pos + m + n } with own := own' } : State ω σ) = _
  rw [Nat.add_assoc]
  rfl

omit [HostObject ω] in
@[simp] theorem onward_rest (s : State ω σ) (n : Nat) (own : σ) :
    (onward s n own).cursor.rest = s.cursor.rest.drop n := (List.drop_drop ..).symm

omit [HostObject ω] in
theorem rest_of_word {s : State ω σ} {n : Nat} {rest : List Char} (hs : s.cursor.rest = word n ++ rest)
    (own : σ) : (onward s (2 * n + 1) own).cursor.rest = rest := by
  rw [onward_rest, hs, ← length_word, List.drop_left]

/-- The error of a character that does not come next. -/
def missing (literal : String) (d : Cursor ω) : Value ω :=
  .takeError literal (if d.atEnd then .noSpace else .noMatch)

/-- The error of a missing character is not converted on its way out. -/
theorem retarget_missing {cb : Callbacks ω σ} {s : State ω σ} {name literal : String} {l : Kind}
    {m : Mark ω} (hl : l.isInfallible = false) (d : Cursor ω) :
    retarget cb name (.kind l) (.kind .takeError) (.failedAt (missing literal d) m) c s =
      (.returned (.failedAt (missing literal d) m), s) := retarget_takeError hl ..

/-! ## The alternative in brackets -/

section Brackets

variable {cb : Callbacks ω σ} {s t : State ω σ} {literal : String} {m : Mark ω} {d : Cursor ω}
  {v : Value ω} {rest : List Char}

theorem run_bracketed_of_ne (hs : ∀ rest, s.cursor.rest ≠ '(' :: rest) :
    (bracketed k f).run cb c s =
      (.returned (.failedAt (missing "(" s.cursor) s.cursor.toMark), s) := by
  have hopen : (take "(").run cb c s = _ := run_take_of_ne (by rfl) hs
  have hinner := (run_seq_of_failed (q := later (.kind k) f) hopen rfl).trans
    (retarget_missing (by rfl) s.cursor)
  have hopened := run_map_of_failed (f := .second) hinner rfl
  exact run_map_of_failed
    ((run_seq_of_failed hopened rfl).trans (retarget_missing (by rfl) s.cursor)) rfl

variable (hs : s.cursor.rest = '(' :: rest)

include hs

theorem run_bracketed_of_failed (hk : k.isInfallible = false)
    (hinner : (later (.kind k) f).run cb c (onward s 1 s.own) =
      (.returned (.failedAt (missing literal d) m), t)) :
    (bracketed k f).run cb c s = (.returned (.failedAt (missing literal d) m), t) := by
  have hopen : (take "(").run cb c s = _ := run_take_of_rest (by rfl) hs
  have hopened := run_map_of_failed (f := .second)
    ((run_seq_of_second_failed hopen rfl hinner rfl).trans (retarget_missing hk d)) rfl
  exact run_map_of_failed ((run_seq_of_failed hopened rfl).trans (retarget_missing (by rfl) d)) rfl

variable (hinner : (later (.kind k) f).run cb c (onward s 1 s.own) = (.returned (.ok v), t))

include hinner

theorem run_opened : (Parser.map (.seq (.take "(") (.later (.kind k) f)) .second).run cb c s =
    (.returned (.ok v), t) := by
  have hopen : (take "(").run cb c s = _ := run_take_of_rest (by rfl) hs
  exact run_map_of_succeeded (run_seq_of_both_succeeded hopen rfl rfl hinner rfl rfl) rfl rfl

/-- What was read in the brackets is the value of the alternative. -/
theorem run_bracketed_of_closed {rest' : List Char} (ht : t.cursor.rest = ')' :: rest') :
    (bracketed k f).run cb c s = (.returned (.ok v), onward t 1 t.own) := by
  have hclose : (take ")").run cb c t = _ := run_take_of_rest (by rfl) ht
  exact run_map_of_succeeded
    (run_seq_of_both_succeeded (run_opened hs hinner) rfl rfl hclose rfl rfl) rfl rfl

theorem run_bracketed_of_unclosed (ht : ∀ rest, t.cursor.rest ≠ ')' :: rest) :
    (bracketed k f).run cb c s =
      (.returned (.failedAt (missing ")" t.cursor) t.cursor.toMark), t) := by
  have hclose : (take ")").run cb c t = _ := run_take_of_ne (by rfl) ht
  exact run_map_of_failed ((run_seq_of_second_failed (run_opened hs hinner) rfl hclose rfl).trans
    (retarget_missing (by rfl) t.cursor)) rfl

end Brackets

/-! ## The whole grammar -/

/-- Both alternatives fail, and what the first one did to the cursor is taken back. -/
theorem run_grammar_of_failed {cb : Callbacks ω σ} {s t : State ω σ} {literal : String} {d : Cursor ω}
    {m : Mark ω} {own : σ} (hs : ∀ rest, s.cursor.rest ≠ 'x' :: rest)
    (hfirst : (bracketed k f).run cb c s = (.returned (.failedAt (missing literal d) m), t))
    (ht : t.backTo s.cursor.toMark = { s with own }) : (grammar k f).run cb c s =
      (.returned (.failedAt (missing "x" s.cursor) s.cursor.toMark), { s with own }) := by
  have hsecond : (take "x").run cb c (t.backTo s.cursor.toMark) =
      (.returned (.failedAt (missing "x" s.cursor) s.cursor.toMark), { s with own }) := by
    rw [ht]
    exact run_take_of_ne (by rfl) hs
  exact (run_alt_of_both_failed hfirst rfl hsecond rfl).trans (retarget_missing (by rfl) s.cursor)

/-- Each of the functions in `F` makes the grammar with another one of them for the next pair of brackets,
and neither moves the cursor nor writes. What the host program remembers of it satisfies `I`. -/
structure Recurs (h : Host ω σ) (c : Context ω) (k : Kind) (F : ω → Prop) (I : σ → Prop) : Prop where
  joins : c.registry.Joins (.kind .takeError) (.kind k)
  fallible : k.isInfallible = false
  force : ∀ resume f (s : State ω σ), F f → I s.own → ∃ g own, F g ∧ I own ∧
    h.force resume f c s = (.returned (grammar k g), { s with own })

/-- The cursor after `n` characters; without any it is as it was given. -/
def past (d : Cursor ω) (n : Nat) : Cursor ω := if n = 0 then d else d.onTo (d.pos + n)

/-- The `x` of a word. -/
def core (d : Cursor ω) (n : Nat) : Value ω := (past d n).spanTo (d.pos + (n + 1))

omit [HostObject ω] in
theorem core_onward (s : State ω σ) (n : Nat) (own : σ) :
    core (onward s 1 own).cursor n = core s.cursor (n + 1) := by
  have hpast : past (onward s 1 own).cursor n = past s.cursor (n + 1) := by
    rcases n with _ | n
    · rfl
    · change s.cursor.onTo (s.cursor.pos + 1 + (n + 1)) = s.cursor.onTo (s.cursor.pos + (n + 1 + 1))
      rw [Nat.add_assoc, Nat.add_comm 1]
  change (past _ n).spanTo (s.cursor.pos + 1 + (n + 1)) = _
  rw [hpast, Nat.add_assoc, Nat.add_comm 1]
  rfl

section Runs

variable {h : Host ω σ} {F : ω → Prop} {I : σ → Prop} (hh : Recurs h c k F I) (rounds : Nat)
  {depth : Nat} {s : State ω σ} (hf : F f) (hI : I s.own)

include hh hf hI

/-- Where the grammar is deferred it is run one level deeper. -/
theorem run_later (depth : Nat) : ∃ g own, F g ∧ I own ∧
    (later (.kind k) f).run (h.callbacks rounds (depth + 1)) c s =
      (grammar k g).run (h.callbacks rounds depth) c { s with own } := by
  obtain ⟨g, own, hg, hown, hforce⟩ := hh.force (fun p => p.run (h.callbacks rounds depth)) f s hf hI
  have hcb : (h.callbacks rounds (depth + 1)).force f c s =
      (.returned (grammar k g), { s with own }) := hforce
  refine ⟨g, own, hg, hown, ?_⟩
  rw [run, Action.bind_apply, hcb]
  rfl

/-- A word is read whole, and the value is its `x`. -/
theorem run_grammar_of_word {n : Nat} {rest : List Char} (hn : n ≤ depth)
    (hs : s.cursor.rest = word n ++ rest) :
    ∃ own, I own ∧ (grammar k f).run (h.callbacks rounds depth) c s =
      (.returned (.ok (core s.cursor n)), onward s (2 * n + 1) own) := by
  induction n generalizing depth f s rest with
  | zero =>
    rw [word_zero_append] at hs
    have hfirst : (bracketed k f).run (h.callbacks rounds depth) c s = _ :=
      run_bracketed_of_ne fun rest h' => by simp [hs] at h'
    exact ⟨s.own, hI, run_alt_of_failed hfirst rfl (run_take_of_rest (by rfl) hs) rfl⟩
  | succ n ih =>
    obtain ⟨depth, rfl⟩ : ∃ d, depth = d + 1 := ⟨depth - 1, by omega⟩
    rw [word_succ_append] at hs
    obtain ⟨g, own, hg, hown, hlater⟩ := run_later hh rounds hf (s := onward s 1 s.own) hI depth
    obtain ⟨own', hown', hinner⟩ := ih hg (s := onward s 1 own) hown (Nat.le_of_succ_le_succ hn)
      (by rw [onward_rest, hs]; rfl)
    have hfirst := run_bracketed_of_closed hs (hlater.trans hinner)
      (rest_of_word (by rw [onward_rest, hs]; rfl) own')
    have hpos : 1 + (2 * n + 1 + 1) = 2 * (n + 1) + 1 := by omega
    rw [core_onward, onward_onward, onward_onward, hpos] at hfirst
    exact ⟨own', hown', run_alt_of_succeeded hfirst rfl⟩

/-- Where no word comes next the grammar fails at the start: after at most one level for each character that
is left, some bracket or the `x` is missing, and all that was read is given back. -/
theorem run_grammar_of_not_word (hdepth : s.cursor.rest.length ≤ depth)
    (hs : ∀ n rest, s.cursor.rest ≠ word n ++ rest) :
    ∃ own, I own ∧ (grammar k f).run (h.callbacks rounds depth) c s =
      (.returned (.failedAt (missing "x" s.cursor) s.cursor.toMark), { s with own }) := by
  generalize hr : s.cursor.rest = text at hdepth
  induction text generalizing depth f s with
  | nil =>
    have hfirst : (bracketed k f).run (h.callbacks rounds depth) c s = _ :=
      run_bracketed_of_ne fun rest h' => List.cons_ne_nil _ _ (h'.symm.trans hr)
    exact ⟨s.own, hI, run_grammar_of_failed (hs 0) hfirst rfl⟩
  | cons y text ih =>
    by_cases hy : y = '('
    · subst hy
      obtain ⟨depth, rfl⟩ : ∃ d, depth = d + 1 := ⟨depth - 1, by simp at hdepth; omega⟩
      have hle : text.length ≤ depth := Nat.le_of_succ_le_succ hdepth
      obtain ⟨g, own, hg, hown, hlater⟩ := run_later hh rounds hf (s := onward s 1 s.own) hI depth
      have hrest : (onward s 1 own).cursor.rest = text := by rw [onward_rest, hr]; rfl
      by_cases hw : ∃ n rest, text = word n ++ rest
      · -- a word is read, but the bracket that would make another word of it is missing
        obtain ⟨n, rest, hw⟩ := hw
        have hn : n ≤ depth := by
          have hlength := congrArg List.length hw
          rw [List.length_append, length_word] at hlength
          omega
        obtain ⟨own', hown', hinner⟩ := run_grammar_of_word hh rounds hg (s := onward s 1 own) hown hn
          (hrest.trans hw)
        have hfirst := run_bracketed_of_unclosed hr (hlater.trans hinner) fun rest' h' => by
          rw [rest_of_word (hrest.trans hw) own'] at h'
          exact hs (n + 1) rest' (by rw [hr, hw, h', word_succ_append])
        exact ⟨own', hown', run_grammar_of_failed (hs 0) hfirst rfl⟩
      · obtain ⟨own', hown', hinner⟩ := ih hg (s := onward s 1 own) hown
          (fun n rest hn => hw ⟨n, rest, hrest.symm.trans hn⟩) hrest hle
        have hfirst := run_bracketed_of_failed hr hh.fallible (hlater.trans hinner)
        exact ⟨own', hown', run_grammar_of_failed (hs 0) hfirst rfl⟩
    · have hfirst : (bracketed k f).run (h.callbacks rounds depth) c s = _ :=
        run_bracketed_of_ne fun rest h' => hy (List.cons.inj (hr.symm.trans h')).1
      exact ⟨s.own, hI, run_grammar_of_failed (hs 0) hfirst rfl⟩

/-- The grammar reads its words, and nothing else. At a word it comes to the `x`, and leaves the cursor behind
the last bracket; elsewhere the `x` is reported as missing at the start, where the cursor is left. One level
for each character that is left is deep enough, and no repetition is run. -/
theorem reads_exactly_words (hdepth : s.cursor.remaining ≤ depth) :
    make k f c s = (.returned (grammar k f), s) ∧
    ((∃ n, word n <+: s.cursor.rest) ↔ ∃ o t,
      (grammar k f).run (h.callbacks rounds depth) c s = (.returned o, t) ∧ o.succeeded = .ok true) ∧
    (∀ n, word n <+: s.cursor.rest → ∃ own, I own ∧
      (grammar k f).run (h.callbacks rounds depth) c s =
        (.returned (.ok ((past s.cursor n).spanTo (s.cursor.pos + (n + 1)))),
          { s.backTo { pos := s.cursor.pos + (2 * n + 1) } with own })) ∧
    ((∀ n, ¬ word n <+: s.cursor.rest) → ∃ own, I own ∧
      (grammar k f).run (h.callbacks rounds depth) c s =
        (.returned (.failedAt (.takeError "x" (if s.cursor.atEnd then .noSpace else .noMatch))
          s.cursor.toMark), { s with own })) := by
  have hrest : s.cursor.rest.length ≤ depth := by rwa [Cursor.rest, List.length_drop]
  have hword (n : Nat) (hn : word n <+: s.cursor.rest) : ∃ own, I own ∧
      (grammar k f).run (h.callbacks rounds depth) c s =
        (.returned (.ok (core s.cursor n)), onward s (2 * n + 1) own) := by
    have hlength := hn.length_le
    rw [length_word] at hlength
    obtain ⟨rest, hn⟩ := hn
    exact run_grammar_of_word hh rounds hf hI (by omega) hn.symm
  have hnone (hn : ∀ n, ¬ word n <+: s.cursor.rest) : ∃ own, I own ∧
      (grammar k f).run (h.callbacks rounds depth) c s =
        (.returned (.failedAt (missing "x" s.cursor) s.cursor.toMark), { s with own }) :=
    run_grammar_of_not_word hh rounds hf hI hrest fun n rest hs => hn n ⟨rest, hs.symm⟩
  refine ⟨make_returned hh.joins s, ⟨?_, ?_⟩, hword, hnone⟩
  · rintro ⟨n, hn⟩
    obtain ⟨own, -, hrun⟩ := hword n hn
    exact ⟨_, _, hrun, rfl⟩
  · rintro ⟨o, t, hrun, ho⟩
    by_contra hn
    obtain ⟨own, -, hfailed⟩ := hnone fun n hw => hn ⟨n, hw⟩
    obtain rfl := Answer.returned.inj (congrArg Prod.fst (hrun.symm.trans hfailed))
    cases ho

end Runs

section Script

open Script

/-- The grammar as a script writes it that gives it the name `nested`. -/
def written : ParserExpr :=
  .choice [.call .less (.call .greater (.take "(")
    (.later (.ref "nested") (some (.named "TakeError")) .usual)) (.take ")"), .take "x"]

/-- The function of its deferred parser. -/
def named (serial : Nat) : Object := .factory serial .usual (.ref "nested")

/-- Once the grammar has its name the script recurs: what is deferred is looked up when it is first needed, and
kept. -/
theorem recurs_script {c : Context Object} {k : Kind} (serial : Nat)
    (hjoins : c.registry.Joins (.kind .takeError) (.kind k)) (hk : k.isInfallible = false) :
    Recurs Script.host c k (· = named serial) fun s =>
      s.named.lookup "nested" = some (Object.ofParser (grammar k (named serial))) ∧
      ∀ q ∈ s.forced.lookup serial, q = grammar k (named serial) := by
  refine ⟨hjoins, hk, ?_⟩
  rintro resume f s rfl ⟨hname, hforced⟩
  have hbuilt : build (.ref "nested") c s =
      (.returned (Object.ofParser (grammar k (named serial))), s) := by
    change (do resolve "nested" ((← Action.own).named.lookup "nested") : Act (Value Object)) c s = _
    rw [Action.bind_apply]
    simp only [Action.own, hname]
    rfl
  rcases hl : s.own.forced.lookup serial with _ | q
  · refine ⟨named serial, { s.own with forced := (serial, grammar k (named serial)) :: s.own.forced }, rfl,
      ⟨hname, fun q hq => ?_⟩, ?_⟩
    · simpa using hq.symm
    · change Script.force serial (.ref "nested") c s = _
      rw [Script.force, Action.bind_apply]
      simp only [Action.own, hl]
      rw [Action.bind_apply, hbuilt]
      rfl
  · refine ⟨named serial, s.own, rfl, ⟨hname, hforced⟩, ?_⟩
    change Script.force serial (.ref "nested") c s = _
    rw [Script.force, Action.bind_apply]
    simp only [Action.own, hl]
    rw [hforced q hl]
    rfl

/-- A script builds the grammar and gives it its name. Of `a((x))z` it then reads the brackets, if it begins
behind the `a`, and of `((x)` nothing. -/
theorem reads_exactly_words_script :
    let c : Context Object := ⟨.empty, {}, .warning⟩
    let p := grammar .takeError (named 1)
    let session (names : List (String × Value Object)) (made : Nat) : Session := ⟨[], names, made, [], []⟩
    let s (text : String) (pos : Nat) : State Object Session :=
      ⟨{ source := text.toList, pos }, [], session [("nested", Object.ofParser p)] 1⟩
    build written c ⟨.ofList [], [], session [] 0⟩ =
      (.returned (Object.ofParser p), ⟨.ofList [], [], session [] 1⟩) ∧
    c.registry.Joins (.kind .takeError) (.kind .takeError) ∧
    (∃ t, p.run (Script.host.callbacks 0 6) c (s "a((x))z" 1) =
      (.returned (.ok (.span ⟨"a((x))z".toList, 3, 4⟩)), t) ∧ t.cursor.pos = 6) ∧
    ∃ t, p.run (Script.host.callbacks 0 4) c (s "((x)" 0) =
      (.returned (.err (.takeError "x" .noMatch) (.int 0)), t) ∧ t.cursor.pos = 0 := by
  intro c p session s
  have hjoins : c.registry.Joins (.kind .takeError) (.kind .takeError) :=
    ⟨.takeError, rfl, .inr (.inr (by decide))⟩
  have hrecurs := recurs_script 1 hjoins (by rfl)
  refine ⟨rfl, hjoins, ?_, ?_⟩
  · have hdepth : (s "a((x))z" 1).cursor.remaining ≤ 6 := by decide
    have hword : word 2 <+: (s "a((x))z" 1).cursor.rest := by decide
    obtain ⟨own, -, hrun⟩ := (reads_exactly_words hrecurs 0 rfl ⟨rfl, by simp [s, session]⟩ hdepth).2.2.1 2 hword
    exact ⟨_, hrun, rfl⟩
  · have hdepth : (s "((x)" 0).cursor.remaining ≤ 4 := by decide
    have hnone : ∀ n, ¬ word n <+: (s "((x)" 0).cursor.rest := by
      intro n hn
      have hlength : (word n).length ≤ 4 := hn.length_le
      rw [length_word] at hlength
      obtain rfl | rfl : n = 0 ∨ n = 1 := by omega
      · exact absurd hn (by decide)
      · exact absurd hn (by decide)
    obtain ⟨own, -, hrun⟩ := (reads_exactly_words hrecurs 0 rfl ⟨rfl, by simp [s, session]⟩ hdepth).2.2.2 hnone
    exact ⟨_, hrun, rfl⟩

end Script

end ParserAlgebra.Nested
