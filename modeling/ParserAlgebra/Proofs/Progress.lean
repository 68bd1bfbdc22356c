import ParserAlgebra.Assignment
import ParserAlgebra.Proofs.Repetition

/-!
# Progress

An attempt that never goes back has only as many places before it as there are characters left, so
the repetition of such a body is greedy and ends (`Parser.run_many_greedy`). It may also end with the
fault of asking an object that passes for an outcome and is none (`Parser.many_without_value`).

What a repetition checks is less: that an attempt which succeeds does not end where it began. An attempt
that ends before that place counts as progress (`Parser.loops_checked`), and two of them can go to and fro
for ever.
-/

namespace ParserAlgebra

variable {ω σ : Type} [HostObject ω] {c : Context ω}

namespace Parser

variable {attempt : Action ω σ (Outcome ω)} {s t u : State ω σ} {res : Outcome ω}
  {vs : List (Value ω)}

/-! ## Attempts that never go back -/

/-- The attempt ends at every cursor, and what it returns leaves the cursor at a place of the same
input that is not before the one where it began. -/
structure Advances (c : Context ω) (attempt : Action ω σ (Outcome ω)) : Prop where
  ends : ∀ s, s.cursor.Placed → (attempt c s).1 ≠ .exhausted
  placed : ∀ {s res t}, s.cursor.Placed → attempt c s = (.returned res, t) → t.cursor.Placed
  source : ∀ {s res t}, s.cursor.Placed → attempt c s = (.returned res, t) →
    t.cursor.source = s.cursor.source
  forward : ∀ {s res t}, s.cursor.Placed → attempt c s = (.returned res, t) →
    s.cursor.pos ≤ t.cursor.pos

namespace Advances

variable (hx : Advances c attempt)

include hx

theorem lt_of_elsewhere (hs : s.cursor.Placed) (h : attempt c s = (.returned res, t))
    (hm : Elsewhere s.cursor.toMark t.cursor.toMark) : Ahead s.cursor.toMark t.cursor.toMark := by
  have hne : (t.cursor.pos == s.cursor.pos) = false :=
    Except.ok.inj (((hx.placed hs h).counts.equal hs.counts).symm.trans hm)
  have hle := hx.forward hs h
  simp only [beq_eq_false_iff_ne] at hne
  unfold Ahead
  omega

theorem strides (h : Strides c Elsewhere attempt s vs t) (hs : s.cursor.Placed) :
    Strides c Ahead attempt s vs t ∧ t.cursor.Placed ∧
      vs.length + t.cursor.remaining ≤ s.cursor.remaining := by
  -- The measure is what is left of the input: each attempt of the row takes something from it.
  induction h with
  | nil s => exact ⟨.nil s, hs, by simp⟩
  | cons h ha hv hm _ ih =>
    obtain ⟨hvs, hp, hlen⟩ := ih (hx.placed hs h)
    have hlt := hx.lt_of_elsewhere hs h hm
    have hsource := hx.source hs h
    have hin := (hx.placed hs h).inside
    refine ⟨.cons h ha hv hlt hvs, hp, ?_⟩
    unfold Cursor.remaining Ahead at *
    rw [hsource] at hlen hin
    rw [List.length_cons]
    omega

end Advances

/-- An attempt that goes one place on where there is a character, and else stays. -/
theorem advances_of_stepping {x : Action ω σ (Outcome ω)}
    (h : ∀ s : State ω σ, (s.cursor.atEnd = true ∧ ∃ res, x c s = (.returned res, s)) ∨
      (s.cursor.pos < s.cursor.source.length ∧ ∃ res, x c s =
        (.returned res, { s with cursor := s.cursor.onTo (s.cursor.pos + 1) }))) : Advances c x := by
  refine ⟨fun s _ => ?_, fun {s res t} hs h' => ?_, fun {s res t} _ h' => ?_, fun {s res t} _ h' => ?_⟩
  all_goals obtain ⟨-, res', hx⟩ | ⟨hlt, res', hx⟩ := h s
  · simp [hx]
  · simp [hx]
  · obtain ⟨-, rfl⟩ := Prod.mk.inj (hx.symm.trans h')
    exact hs
  · obtain ⟨-, rfl⟩ := Prod.mk.inj (hx.symm.trans h')
    exact ⟨hlt, Mark.counts_mk _⟩
  · obtain ⟨-, rfl⟩ := Prod.mk.inj (hx.symm.trans h')
    rfl
  · obtain ⟨-, rfl⟩ := Prod.mk.inj (hx.symm.trans h')
    rfl
  · obtain ⟨-, rfl⟩ := Prod.mk.inj (hx.symm.trans h')
    exact Nat.le_refl _
  · obtain ⟨-, rfl⟩ := Prod.mk.inj (hx.symm.trans h')
    exact Nat.le_succ _

theorem advances_nextChar {cb : Callbacks ω σ} : Advances c (nextChar.run cb) := by
  refine advances_of_stepping fun s => ?_
  rw [run, Action.bind_apply, Action.cursor_apply]
  by_cases h : s.cursor.atEnd = true
  · exact .inl ⟨h, _, by simp [h]; rfl⟩
  · have hlt : s.cursor.pos < s.cursor.source.length := by simpa [Cursor.atEnd] using h
    exact .inr ⟨hlt, _, by simp [h, Action.bind_apply]; rfl⟩

/-- The ways in which repeating `p` ends with the attempt at `t`, when the values `vs` were
gathered. -/
inductive Ending (cb : Callbacks ω σ) (c : Context ω) (p : Parser ω) (t : State ω σ)
    (vs : List (Value ω)) : Answer ω (Outcome ω) → State ω σ → Prop
  | failed {res : Outcome ω} {u : State ω σ} (h : p.run cb c t = (.returned res, u))
      (ha : res.succeeded = .ok false) :
      Ending cb c p t vs (.returned (.ok (.list vs))) (u.backTo t.cursor.toMark)
  | still {res : Outcome ω} {u w : State ω σ} {x : Value ω}
      (h : p.run cb c t = (.returned res, u)) (ha : res.succeeded = .ok true)
      (hm : u.cursor.pos = t.cursor.pos) (hx : TellsOf t.cursor.toMark x) :
      Ending cb c p t vs (.raised x) w
  | raised {e : Value ω} {u : State ω σ} (h : p.run cb c t = (.raised e, u)) :
      Ending cb c p t vs (.raised e) u
  /-- An object in place of an outcome raises when it is asked how it went. -/
  | unanswered {o : Value ω} {u : State ω σ} {f : Fault}
      (h : p.run cb c t = (.returned (.derived o), u))
      (hf : (Outcome.derived o).succeeded = .error f ∨ (Outcome.derived o).value = .error f) :
      Ending cb c p t vs (.raised f.exception) u

/-- Repeating a parser that never goes back is greedy and ends: attempts succeed in a row, each of
them further on than where it began, and the next one ends the repetition. With that one there is at
most one attempt more than there are characters left. -/
theorem run_many_greedy {cb : Callbacks ω σ} {p : Parser ω}
    (hon : c.settings.checksProgress = .ok true) (hp : Advances c (p.run cb))
    (hs : s.cursor.Placed) (hr : s.cursor.remaining < cb.rounds) :
    ∃ vs t x u, Strides c Ahead (p.run cb) s vs t ∧ vs.length + 1 ≤ s.cursor.remaining + 1 ∧
      Ending cb c p t vs x u ∧ (many p).run cb c s = (x, u) := by
  have hrun : (many p).run cb c s = (do
      return .ok (.list (← repeated p.name (p.run cb) cb.rounds [])) :
        Action ω σ (Outcome ω)) c s := by rw [run]
  rw [repeated_eq_looped, Action.bind_apply] at hrun
  obtain ⟨vs, t, hvs, hend⟩ := looped_run hon .loops _ (p.run cb) cb.rounds [] s
  obtain ⟨hahead, ht, hlen⟩ := hp.strides hvs hs
  rcases hend with ⟨hfull, -⟩ | ⟨x, u, -, hlast, hloop⟩
  · omega
  · rw [hloop] at hrun
    refine ⟨vs, t, _, _, hahead, by omega, ?_, hrun⟩
    cases hlast with
    | failed h ha => exact .failed h ha
    | still h ha hm hx =>
      have hpos := Except.ok.inj (((hp.placed ht h).counts.equal ht.counts).symm.trans hm)
      exact .still h ha (beq_iff_eq.1 hpos) hx
    | @unanswered res w f h hf =>
      obtain ⟨o, rfl, hf⟩ := hf.derived ((hp.placed ht h).counts.equal ht.counts)
      exact .unanswered h hf
    | raised h => exact .raised h
    | exhausted h => exact absurd (congrArg Prod.fst h) (hp.ends t ht)

/-- The characters after the first one are taken one by one. -/
theorem run_many_nextChar :
    let cb := Assignment.host.callbacks 3 1
    let c : Context Assignment.Function := ⟨.empty, {}, .warning⟩
    let s : State Assignment.Function Unit := ⟨⟨⟨1, none⟩, ['a', 'b', 'c']⟩, [], ()⟩
    c.settings.checksProgress = .ok true ∧ Advances c (nextChar.run cb) ∧ s.cursor.Placed ∧
      s.cursor.remaining < cb.rounds ∧
      ∃ vs t x u, Strides c Ahead (nextChar.run cb) s vs t ∧
        vs.length + 1 ≤ s.cursor.remaining + 1 ∧ Ending cb c nextChar t vs x u ∧
        (many nextChar).run cb c s = (x, u) := by
  intro cb c s
  have hs : s.cursor.Placed := ⟨by decide, Mark.counts_mk 1⟩
  have hr : s.cursor.remaining < cb.rounds := by decide
  exact ⟨rfl, advances_nextChar, hs, hr, run_many_greedy rfl advances_nextChar hs hr⟩

/-- A function that takes a character and hands out `v`. -/
def handingOut (v : Value Assignment.Function) : Action Assignment.Function Unit (Value Assignment.Function) := do
  let d ← Action.cursor
  if d.atEnd then return .err (.str "end") (.int d.pos)
  else
    Action.setCursor (d.onTo (d.pos + 1))
    return v

theorem run_handingOut {v : Value Assignment.Function} {cb : Callbacks Assignment.Function Unit}
    {f : Assignment.Function} {res : Outcome Assignment.Function} {c : Context Assignment.Function}
    {name : String} {d : Declared Assignment.Function} (hcb : cb.step f = handingOut v)
    (hv : (normalise name v : Assignment.Act _) = Pure.pure res) (s : State Assignment.Function Unit) :
    (s.cursor.atEnd = true ∧ ∃ res, (function name d f).run cb c s = (.returned res, s)) ∨
      (s.cursor.pos < s.cursor.source.length ∧ ∃ res, (function name d f).run cb c s =
        (.returned res, { s with cursor := s.cursor.onTo (s.cursor.pos + 1) })) := by
  by_cases h : s.cursor.atEnd = true
  · exact .inl ⟨h, .err (.str "end") (.int s.cursor.pos), by
      simp [run, hcb, handingOut, Action.bind_apply, h]⟩
  · have hlt : s.cursor.pos < s.cursor.source.length := by simpa [Cursor.atEnd] using h
    refine .inr ⟨hlt, res, ?_⟩
    simp [run, hcb, handingOut, Action.bind_apply, h, hv, -bind_pure_comp]

/-- An object that passes for a success and has no value ends the repetition of a function that goes on and
raises nothing. -/
theorem many_without_value :
    let kind : Kind := .mk "Y" 1 [.valueError, .ok]
    let e : Value Assignment.Function := (Fault.noAttribute (.aValue kind.label) "value").exception
    Kind.derive? "Y" 1 [.valueError, .ok] = some kind ∧ e.kindOf = .attributeError ∧
      ∃ v, Value.construct kind [.str "a"] = .ok v ∧
        let cb : Callbacks Assignment.Function Unit :=
          { Assignment.host.callbacks 3 1 with step := fun _ => handingOut v }
        let c : Context Assignment.Function := ⟨.empty, {}, .warning⟩
        let s : State Assignment.Function Unit := ⟨.ofList ['a', 'b'], [], ()⟩
        let p : Parser Assignment.Function := .function "body" .undeclared .assignment
        c.settings.checksProgress = .ok true ∧ Advances c (p.run cb) ∧ s.cursor.Placed ∧
          s.cursor.remaining < cb.rounds ∧ (∀ t x, (p.run cb c t).1 ≠ .raised x) ∧
          (Outcome.derived v).succeeded = .ok true ∧
          ∃ t, p.run cb c s = (.returned (.derived v), t) ∧ t.cursor.pos = 1 ∧
            (many p).run cb c s = (.raised e, t) := by
  intro kind e
  refine ⟨rfl, rfl, _, rfl, ?_⟩
  intro cb c s p
  refine ⟨rfl, advances_of_stepping (run_handingOut rfl rfl), ⟨by decide, Mark.counts_mk 0⟩, by decide,
    fun t x => ?_, rfl, _, rfl, rfl, rfl⟩
  obtain ⟨-, res, h⟩ | ⟨-, res, h⟩ : (_ ∧ ∃ res, p.run cb c t = _) ∨ _ ∧ ∃ res, p.run cb c t = _ :=
    run_handingOut rfl rfl t
  all_goals exact fun hx => nomatch (congrArg Prod.fst h).symm.trans hx

/-! ## What is checked -/

/-- What holds of a loop over attempts that checks their progress. An attempt that succeeds where it
began is raised, after whatever row of attempts. The rounds run out exactly if as many attempts
succeed in a row, each of them at another place than where it began, be it further on or before. So
the loop ends over attempts that never go back. -/
structure Checked (c : Context ω) (attempt : Action ω σ (Outcome ω))
    (loop : Nat → List (Value ω) → Action ω σ (List (Value ω))) : Prop where
  still : ∀ {s t u vs res}, Strides c Elsewhere attempt s vs t →
    attempt c t = (.returned res, u) → res.succeeded = .ok true →
    u.cursor.toMark.equal t.cursor.toMark = .ok true → ∀ n done, vs.length < n →
      ∃ x w, loop n done c s = (.raised x, w) ∧ TellsOf t.cursor.toMark x
  endless : (∀ s, (attempt c s).1 ≠ .exhausted) → ∀ n done s,
    (loop n done c s).1 = .exhausted ↔ ∃ vs t, vs.length = n ∧ Strides c Elsewhere attempt s vs t
  ends : Advances c attempt → ∀ n done s, s.cursor.Placed → s.cursor.remaining < n →
    (loop n done c s).1 ≠ .exhausted

theorem checked_looped (hon : c.settings.checksProgress = .ok true) (ch : Level.Channel)
    (message : String) (attempt : Action ω σ (Outcome ω)) :
    Checked c attempt (looped ch message attempt) where
  still {s t u vs res} hvs h ha hm n done hn := by
    obtain ⟨k, rfl⟩ : ∃ k, n = k + 1 + vs.length := ⟨n - vs.length - 1, by omega⟩
    obtain ⟨x, w, htells, hrun⟩ := looped_of_still hon h ha hm
    exact ⟨x, w, (looped_of_strides hvs).trans (hrun k), htells⟩
  endless hends n done s := looped_exhausted_iff hon hends
  ends hx n done s hs hn hfull := by
    obtain ⟨vs, t, hvs, ⟨hlen, -⟩ | ⟨x, u, -, hlast, hrun⟩⟩ :=
      looped_run hon ch message attempt n done s
    · have := (hx.strides hvs hs).2.2
      omega
    · obtain rfl : x = .exhausted := by rw [← hfull, hrun]
      cases hlast with
      | exhausted h => exact hx.ends t (hx.strides hvs hs).2.1 (congrArg Prod.fst h)

/-- Both repetitions check that an attempt which succeeds does not end where it began, and no more
than that. -/
theorem loops_checked (hon : c.settings.checksProgress = .ok true) (name : String)
    (body item sep : Action ω σ (Outcome ω)) :
    Checked c body (repeated name body) ∧ Checked c (pairing item sep) (separated name item sep) := by
  have hbody : repeated name body = looped .loops _ body :=
    funext fun n => funext fun done => repeated_eq_looped name body n done
  have hpair : separated name item sep = looped .combinators _ (pairing item sep) :=
    funext fun n => funext fun done => separated_eq_looped name item sep n done
  rw [hbody, hpair]
  exact ⟨checked_looped hon .loops _ body, checked_looped hon .combinators _ (pairing item sep)⟩

/-- Blanks, of which there are none, are skipped where they are looked for. -/
theorem loops_checked_blank :
    let cb := Assignment.host.callbacks 1 1
    let c : Context Assignment.Function := ⟨.empty, {}, .warning⟩
    let s : State Assignment.Function Unit := ⟨⟨⟨1, none⟩, ['a', 'b']⟩, [], ()⟩
    let blank := whitespace.run cb
    c.settings.checksProgress = .ok true ∧
      (∃ w, repeated "whitespace" blank 5 [] c s =
        (.raised (Fault.notAdvancing "1").exception, w)) ∧
      ∃ w, separated "whitespace" blank blank 5 [] c s =
        (.raised (Fault.notAdvancing "1").exception, w) := by
  intro cb c s blank
  have hon : c.settings.checksProgress = .ok true := rfl
  obtain ⟨hmany, hsep⟩ := loops_checked hon "whitespace" blank blank blank
  have hsaid : s.cursor.toMark.value.text? = .ok "1" :=
    Mark.text?_mk (lt_writeLimit (n := 1) (by decide))
  obtain ⟨x, w, hx, tellsx⟩ := hmany.still (.nil s) rfl rfl rfl 5 [] (by decide)
  obtain ⟨y, v, hy, tellsy⟩ := hsep.still (.nil s) rfl rfl rfl 5 [] (by decide)
  rw [tellsx "1" hsaid] at hx
  rw [tellsy "1" hsaid] at hy
  exact ⟨hon, ⟨w, hx⟩, v, hy⟩

/-- An attempt that goes to and fro between the first two places and always succeeds. -/
def toAndFro : Action ω σ (Outcome ω) := do
  let m ← Action.save
  Action.rewindTo { pos := if m.pos = 0 then 1 else 0 }
  return .ok .none

theorem strides_toAndFro : ∀ (n : Nat) (s : State ω σ), s.cursor.given = none →
    ∃ vs t, vs.length = n ∧ Strides c Elsewhere toAndFro s vs t
  | 0, s, _ => ⟨[], s, rfl, .nil s⟩
  | n + 1, s, hs => by
    obtain ⟨vs, t, hlen, hvs⟩ := strides_toAndFro n
      (s.backTo { pos := if s.cursor.pos = 0 then 1 else 0 }) rfl
    refine ⟨.none :: vs, t, congrArg _ hlen, .cons rfl rfl rfl ?_ hvs⟩
    obtain ⟨⟨⟨pos, given⟩, src⟩, log, own⟩ := s
    obtain rfl : given = none := hs
    rcases pos with _ | pos <;> rfl

/-- A success before the place where its attempt began is not raised, and over attempts that always
succeed, now further on and now before, a repetition goes on for ever. -/
theorem back_unchecked :
    let c : Context Assignment.Function := ⟨.empty, {}, .warning⟩
    let s : State Assignment.Function Bool := ⟨⟨⟨1, none⟩, ['a', 'b']⟩, [], false⟩
    let backOnce : Action Assignment.Function Bool (Outcome Assignment.Function) := do
      if ← Action.own then return .failedAt (.str "x") (← Action.save)
      else
        Action.modifyOwn fun _ => true
        Action.rewindTo { pos := 0 }
        return .ok .none
    c.settings.checksProgress = .ok true ∧
      (∃ t, backOnce c s = (.returned (.ok .none), t) ∧ t.cursor.pos < s.cursor.pos) ∧
      (∃ t, repeated "body" backOnce 2 [] c s = (.returned [.none], t)) ∧
      (∀ t, (toAndFro (ω := Assignment.Function) (σ := Bool) c t).1 ≠ .exhausted) ∧
      ∀ n, (repeated "body" toAndFro n [] c s).1 = .exhausted := by
  intro c s backOnce
  have hon : c.settings.checksProgress = .ok true := rfl
  have hends (t : State Assignment.Function Bool) : (toAndFro c t).1 ≠ .exhausted := by
    intro h
    cases h
  refine ⟨hon, ⟨_, rfl, Nat.zero_lt_one⟩, ⟨_, rfl⟩, hends, fun n => ?_⟩
  rw [repeated_eq_looped]
  exact (looped_exhausted_iff hon hends).2 (strides_toAndFro n s rfl)

end Parser

end ParserAlgebra
