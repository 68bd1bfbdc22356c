import ParserAlgebra.Proofs.Contents
import ParserAlgebra.Proofs.Words

/-!
# What the primitive parsers find

The parsers that hand out a part of the input look for it at the cursor (`Parser.Matches`): a character, a word
that is as long as possible, or a copy of a text. If it is there, they hand it out and move over it and
nothing else happens (`State.Moves`); if it is not, they fail where they are and leave the state as it is, so
that they fail in the same way when they are run once more (`Parser.run_primitives`).
-/

namespace ParserAlgebra

open ParserAlgebra.Assignment (IsWord IsGap Stops stops_dropWhile isWord_takeWhile isGap_takeWhile
  takeWhile_append drop_of_append)

variable {ω σ : Type} {cut r : List Char}

/-- The cursor moves over the characters `cut` and nothing else happens. -/
structure State.Moves (s : State ω σ) (cut : List Char) (t : State ω σ) : Prop where
  rest : s.cursor.rest = cut ++ t.cursor.rest
  pos : t.cursor.pos = s.cursor.pos + cut.length
  else_same : t = s.backTo t.cursor.toMark

theorem State.moves_placed {s : State ω σ} (h : s.cursor.rest = cut ++ r) :
    s.Moves cut (s.placed (s.cursor.pos + cut.length)) where
  rest := by
    have hrest : (s.placed (s.cursor.pos + cut.length)).cursor.rest = r := drop_of_append h
    rw [hrest, h]
  pos := rfl
  else_same := rfl

theorem State.moves_nil (s : State ω σ) : s.Moves [] s := ⟨rfl, rfl, rfl⟩

theorem State.Moves.text [HostObject ω] {s t : State ω σ} {source : List Char} {v : Value ω}
    (h : s.Moves cut t) (hs : s.cursor.Inside source)
    (hv : v.PartOf source s.cursor.pos t.cursor.pos) : v.text? = .ok (String.ofList cut) := by
  have hrest : source.drop s.cursor.pos = cut ++ t.cursor.rest := by rw [← h.rest, ← hs.same]; rfl
  rw [hv.text, hrest, h.pos, Nat.add_sub_cancel_left, List.take_left]

namespace Parser

/-- The parser finds the characters `cut`, behind which the text goes on with `r`. -/
inductive Matches : Parser ω → List Char → List Char → Prop
  | nextChar (x : Char) (r : List Char) : Matches nextChar [x] r
  | word {w r : List Char} (hw : IsWord w) (hr : Stops (!isBlank ·) r) : Matches word w r
  | take (literal : String) (r : List Char) : Matches (take literal) literal.toList r

/-- The parser can fail at the cursor with the error. -/
inductive Misses : Parser ω → Cursor ω → Value ω → Prop
  | nextChar (d : Cursor ω) : Misses nextChar d (.exception .endOfInput [] .nil)
  | word (d : Cursor ω) : Misses word d (.exception .wordError [] .nil)
  | take (literal : String) (d : Cursor ω) : Misses (take literal) d
      (.takeError literal (if d.remaining < literal.length then .noSpace else .noMatch))
  | eof (d : Cursor ω) (found : String) : Misses eof d (.leftOver found)

variable [HostObject ω] {cb : Callbacks ω σ} {c : Context ω} {s t : State ω σ} {p : Parser ω}

/-- The parser fails at the cursor with the error, whatever else is in the state, and leaves that as it is. -/
structure FailsInPlace (cb : Callbacks ω σ) (c : Context ω) (p : Parser ω) (d : Cursor ω) (e : Value ω) :
    Prop where
  misses : p.Misses d e
  run : ∀ u : State ω σ, u.cursor = d → p.run cb c u = (.returned (.failedAt e d.toMark), u)

/-! ## Finding and missing -/

theorem Matches.run (h : p.Matches cut r) (hs : s.cursor.rest = cut ++ r) :
    p.run cb c s = (.returned (.ok (s.cursor.spanTo (s.cursor.pos + cut.length))),
      s.placed (s.cursor.pos + cut.length)) := by
  cases h with
  | nextChar x r =>
    have hend : ¬ s.cursor.atEnd = true := by
      intro hend
      have hnil : s.cursor.rest = [] := List.drop_eq_nil_of_le (by simpa [Cursor.atEnd] using hend)
      simp [hnil] at hs
    rw [Parser.run, Action.bind_apply, Action.cursor_apply]
    dsimp only
    rw [if_neg hend]
    rfl
  | word hw hr =>
    have hlength : cut.length ≠ 0 := by simpa using hw.1
    rw [Parser.run, Action.bind_apply, Action.cursor_apply]
    dsimp only
    rw [Action.bind_apply, skipRun_apply, hs, takeWhile_append hw.inWord hr]
    dsimp only
    rw [if_neg hlength, if_neg hlength]
    rfl
  | take literal r =>
    rw [run_take_of_append hs, String.length_toList]
    rfl

theorem Cuts.fails_of_not_matches (hp : p.Cuts)
    (h : ∀ cut r, s.cursor.rest = cut ++ r → ¬ p.Matches cut r) :
    ∃ e, FailsInPlace cb c p s.cursor e := by
  cases hp with
  | nextChar =>
    have hnil : s.cursor.rest = [] := by
      rcases hs : s.cursor.rest with _ | ⟨x, r⟩
      · rfl
      · exact absurd (.nextChar x r) (h [x] r hs)
    have hend : s.cursor.atEnd = true := by
      simpa [Cursor.atEnd] using List.drop_eq_nil_iff.1 hnil
    refine ⟨_, .nextChar _, fun u hu => ?_⟩
    rw [← hu] at hend ⊢
    rw [Parser.run, Action.bind_apply, Action.cursor_apply]
    dsimp only
    rw [if_pos hend]
    rfl
  | word =>
    have hnil : s.cursor.rest.takeWhile (!isBlank ·) = [] := by
      by_contra hne
      exact h _ _ List.takeWhile_append_dropWhile.symm
        (.word (isWord_takeWhile hne) (stops_dropWhile _ _))
    refine ⟨_, .word _, fun u hu => ?_⟩
    rw [← hu] at hnil ⊢
    rw [Parser.run, Action.bind_apply, Action.cursor_apply]
    dsimp only
    rw [Action.bind_apply, skipRun_apply, hnil]
    rfl
  | take literal =>
    have hprefix : ¬ literal.toList <+: s.cursor.rest := by
      rintro ⟨r, hr⟩
      exact h _ r hr.symm (.take literal r)
    refine ⟨_, .take literal _, fun u hu => ?_⟩
    rw [← hu] at hprefix ⊢
    exact run_take_of_not_isPrefix hprefix

section Failed

variable {a : Outcome ω} (ha : a.succeeded = .ok false)

include ha

theorem Cuts.fails_of_failed (hp : p.Cuts) (h : p.run cb c s = (.returned a, t)) :
    ∃ e, FailsInPlace cb c p s.cursor e := by
  refine hp.fails_of_not_matches fun cut r hs hmatches => ?_
  rw [hmatches.run hs] at h
  cases h
  cases ha

theorem eof_fails_of_failed (h : eof.run cb c s = (.returned a, t)) :
    ∃ e, FailsInPlace cb c eof s.cursor e := by
  by_cases hend : s.cursor.atEnd = true
  · rw [run_eof_of_atEnd hend] at h
    cases h
    cases ha
  · rw [run_eof_of_not_atEnd hend] at h
    rcases hfound : Preview.leftover c.settings s.cursor with f | found <;> rw [hfound] at h
    · cases h
    · refine ⟨_, .eof _ found, fun u hu => ?_⟩
      rw [run_eof_of_not_atEnd (hu ▸ hend), hu, hfound]

theorem fails_of_failed (hp : p.Cuts ∨ p = eof) (h : p.run cb c s = (.returned a, t)) :
    t = s ∧ ∃ e, a = .failedAt e s.cursor.toMark ∧ FailsInPlace cb c p s.cursor e := by
  obtain ⟨e, he⟩ : ∃ e, FailsInPlace cb c p s.cursor e := by
    rcases hp with hp | rfl
    · exact hp.fails_of_failed ha h
    · exact eof_fails_of_failed ha h
  obtain ⟨rfl, rfl⟩ : a = .failedAt e s.cursor.toMark ∧ t = s := by
    simpa using h.symm.trans (he.run s rfl)
  exact ⟨rfl, e, rfl, he⟩

end Failed

/-- The errors are equal to those that are made anew. -/
theorem Misses.equal_self {d : Cursor ω} {e : Value ω} (h : p.Misses d e) : e.equal e = .ok true := by
  cases h with
  | nextChar | word => exact Value.exception_equal_self (by decide) (by decide) .nil
  | take =>
    exact Value.exception_equal_self (by decide) (by decide) (.cons (.str _) (.cons (.mismatch _) .nil))
  | eof => exact Value.exception_equal_self (by decide) (by decide) (.cons (.str _) .nil)

theorem run_whitespace_moves : ∃ gap u, whitespace.run cb c s = (.returned (.ok (.int gap.length)), u) ∧
    s.Moves gap u ∧ IsGap gap ∧ Stops isBlank u.cursor.rest := by
  have hrest : s.cursor.rest = s.cursor.rest.takeWhile isBlank ++ s.cursor.rest.dropWhile isBlank :=
    List.takeWhile_append_dropWhile.symm
  obtain ⟨u, hu, hmoves⟩ : ∃ u, skipRun isBlank c s =
      (.returned (s.cursor.rest.takeWhile isBlank).length, u) ∧
        s.Moves (s.cursor.rest.takeWhile isBlank) u := by
    rw [skipRun_apply]
    refine ⟨_, rfl, ?_⟩
    split
    · next hnil =>
      rw [List.length_eq_zero_iff.1 hnil]
      exact s.moves_nil
    · exact State.moves_placed hrest
  refine ⟨_, u, ?_, hmoves, isGap_takeWhile _, ?_⟩
  · rw [run, Action.bind_apply, hu]
    rfl
  · have hdrop := List.append_cancel_left (hrest.symm.trans hmoves.rest)
    rw [← hdrop]
    exact stops_dropWhile _ _

/-- The parsers that hand out a part of the input find it or fail; blanks are passed over, if there are none
too. A parser that fails, also at the end of the input, stays where it is and fails again with an equal
error. A text has no space exactly if it is longer than what is left. -/
theorem run_primitives {source : List Char} (hs : s.cursor.Inside source) :
    (∀ p : Parser ω, p.Cuts → ∃ a t, p.run cb c s = (.returned a, t) ∧
      ((∃ cut v, p.Matches cut t.cursor.rest ∧ s.Moves cut t ∧ a = .ok v ∧
          v.PartOf source s.cursor.pos t.cursor.pos ∧ v.text? = .ok (String.ofList cut)) ∨
        a.succeeded = .ok false ∧ ∀ cut r, s.cursor.rest = cut ++ r → ¬ p.Matches cut r)) ∧
    (∃ gap u, whitespace.run cb c s = (.returned (.ok (.int gap.length)), u) ∧ s.Moves gap u ∧
      IsGap gap ∧ Stops isBlank u.cursor.rest) ∧
    (∀ p : Parser ω, p.Cuts ∨ p = eof → ∀ a t, p.run cb c s = (.returned a, t) →
      a.succeeded = .ok false →
        t = s ∧ ∃ e, a = .failedAt e s.cursor.toMark ∧ ∀ u : State ω σ, u.cursor = s.cursor →
          ∃ e', p.run cb c u = (.returned (.failedAt e' s.cursor.toMark), u) ∧ e.equal e' = .ok true) ∧
    ∀ literal a t, (take literal).run cb c s = (.returned a, t) → a.succeeded = .ok false →
      ∃ reason, a = .failedAt (.takeError literal reason) s.cursor.toMark ∧
        (reason = .noSpace ↔ s.cursor.remaining < literal.length) := by
  refine ⟨fun p hp => ?_, run_whitespace_moves, fun p hp a t h ha => ?_, fun literal a t h ha => ?_⟩
  · by_cases hfound : ∃ cut r, s.cursor.rest = cut ++ r ∧ p.Matches cut r
    · obtain ⟨cut, r, hrest, hmatches⟩ := hfound
      have hmoves := State.moves_placed hrest
      have hrun : p.run cb c s = _ := hmatches.run hrest
      have hpart := hp.partOf hs hrun
      obtain rfl := List.append_cancel_left (hrest.symm.trans hmoves.rest)
      exact ⟨_, _, hrun, .inl ⟨cut, _, hmatches, hmoves, rfl, hpart, hmoves.text hs hpart⟩⟩
    · have hnot : ∀ cut r, s.cursor.rest = cut ++ r → ¬ p.Matches cut r := fun cut r hrest hmatches =>
        hfound ⟨cut, r, hrest, hmatches⟩
      obtain ⟨e, he⟩ : ∃ e, FailsInPlace cb c p s.cursor e := hp.fails_of_not_matches hnot
      exact ⟨_, _, he.run s rfl, .inr ⟨rfl, hnot⟩⟩
  · obtain ⟨rfl, e, rfl, he⟩ := fails_of_failed ha hp h
    exact ⟨rfl, e, rfl, fun u hu => ⟨e, he.run u hu, he.misses.equal_self⟩⟩
  · obtain ⟨-, e, rfl, hmisses, -⟩ := fails_of_failed ha (.inl (.take literal)) h
    cases hmisses
    refine ⟨_, rfl, ?_⟩
    split <;> simp [*]

/-- A word is cut out behind the first character; a text that is longer than what is left has no space. -/
theorem run_primitives_behind_first :
    let cb := Assignment.host.callbacks 9 1
    let c : Context Assignment.Function := ⟨Assignment.registry, {}, .warning⟩
    let source := ['x', 'a', 'b', ' ']
    let s : State Assignment.Function Unit := ⟨⟨⟨1, none⟩, source⟩, [], ()⟩
    s.cursor.Inside source ∧
      (∃ v t, word.run cb c s = (.returned (.ok v), t) ∧ v.PartOf source 1 3) ∧
      (take "ab a").run cb c s =
        (.returned (.failedAt (.takeError "ab a" .noSpace) s.cursor.toMark), s) := by
  intro cb c source s
  have hs : s.cursor.Inside source := ⟨rfl, by decide, Mark.given_mk 1⟩
  obtain ⟨v, t, hword, hpos⟩ : ∃ v t, word.run cb c s = (.returned (.ok v), t) ∧ t.cursor.pos = 3 :=
    ⟨_, _, rfl, rfl⟩
  obtain ⟨a, u, htake, ha⟩ : ∃ a u, (take "ab a").run cb c s = (.returned a, u) ∧
      a.succeeded = .ok false := ⟨_, _, rfl, rfl⟩
  refine ⟨hs, ⟨v, t, hword, ?_⟩, ?_⟩
  · obtain ⟨a, u, hrun, hfound⟩ := (run_primitives hs).1 word .word
    cases hword.symm.trans hrun
    rcases hfound with ⟨_, _, -, -, hv, hpart, -⟩ | ⟨ha, -⟩
    · cases hv
      rwa [hpos] at hpart
    · cases ha
  · obtain ⟨-, -, hfails, hreason⟩ := run_primitives hs
    obtain ⟨rfl, -⟩ := hfails _ (.inl (.take "ab a")) a u htake ha
    obtain ⟨reason, rfl, hspace⟩ := hreason _ a s htake ha
    rw [htake, hspace.2 (by decide)]

end Parser

end ParserAlgebra
