import ParserAlgebra.Assignment
import ParserAlgebra.Proofs.CursorCalls
import ParserAlgebra.Proofs.Keeping

/-!
# The cursor during a run

A parsing function of the host program that has nothing but the calls of the cursor and the parsers it
runs (`Program`) cannot lead the cursor out of its input. So whatever is relied on at a cursor can be
relied on at each moment of each run (`Cursor.sound_throughout`): before, between and after the parts of
a parser, between the steps of a function, and where an exception ends the run.
-/

namespace ParserAlgebra

variable {ω σ : Type} [HostObject ω] {source : List Char} {c : Context ω} {K : Cursor ω → Prop}

omit [HostObject ω] in
theorem Cursor.closed_inside : Cursor.Closed (Cursor.Inside (ω := ω) source) where
  within h := h.same ▸ h.within
  onTo h _ hn := h.onTo (h.same ▸ hn)
  backTo h he := h.backTo he

/-! ## Programs -/

/-- A parsing function of the host program, step by step. It moves the cursor by calls only; a fault
of a call or an exception of a parser may be caught. -/
inductive Program (ω σ : Type) where
  | done (v : Value ω)
  | raise (e : Value ω)
  | call (call : Cursor.Call ω) (next : Except Fault (Value ω) → Program ω σ)
  | look (next : Context ω → List Record → σ → Program ω σ)
  | put (log : List Record) (own : σ) (next : Program ω σ)
  | parse (p : Parser ω) (next : Except (Value ω) (Outcome ω) → Program ω σ)
  /-- Runs a parser on another text. -/
  | parseText (text : List Char) (p : Parser ω)
      (next : Except (Value ω) (Outcome ω) → Program ω σ)

namespace Program

def act (run : Runner ω σ) : Program ω σ → Action ω σ (Value ω)
  | done v => return v
  | raise e => Action.raise e
  | call m next => fun c s =>
    (next (s.cursor.perform m).1).act run c { s with cursor := (s.cursor.perform m).2 }
  | look next => fun c s => (next c s.log s.own).act run c s
  | put log own next => fun c s => next.act run c { s with log, own }
  | parse p next => do (next (← Action.catching (fun _ => true) (run p))).act run
  | parseText text p next => do
    (next (← Action.catching (fun _ => true) (Action.withInput (.ofList text) (run p)))).act run

/-- A program keeps what the calls of the cursor and the parsers that it runs keep. -/
theorem keeps_act {run : Runner ω σ} (hcall : ∀ d call, K d → K (d.perform call).2)
    (hrun : ∀ p, (run p).Keeps K c) : ∀ q : Program ω σ, (q.act run).Keeps K c
  | done v => .pure v
  | raise _ => fun _ hs => hs
  | call m next => fun s hs => keeps_act hcall hrun (next _) _ (hcall s.cursor m hs)
  | look next => fun s hs => keeps_act hcall hrun (next ..) s hs
  | put _ _ next => fun _ hs => keeps_act hcall hrun next _ hs
  | parse p next => .bind (.catching (hrun p)) fun r => keeps_act hcall hrun (next r)
  | parseText _ _ next => .bind (.catching .withInput) fun r => keeps_act hcall hrun (next r)

end Program

/-- The parsing functions are programs, and the other functions do not move the cursor. -/
structure Host.Confined (h : Host ω σ) (program : ω → Program ω σ) : Prop where
  step : ∀ run f, h.step run f = (program f).act run
  call : ∀ run f v c s, (h.call run f v c s).2.cursor = s.cursor
  force : ∀ run f c s, (h.force run f c s).2.cursor = s.cursor

variable {h : Host ω σ} {program : ω → Program ω σ} {rounds : Nat}

theorem Host.Confined.keeps_tied (hh : h.Confined program)
    (hcall : ∀ d call, K d → K (d.perform call).2) {resume : Runner ω σ}
    (hr : ∀ p, (resume p).Keeps K c) : (h.tied resume rounds).Keeps K c where
  call f v := .of_cursor_eq (hh.call resume f v c)
  step f := by
    change (h.step resume f).Keeps K c
    rw [hh.step]
    exact Program.keeps_act hcall hr _
  force f := .of_cursor_eq (hh.force resume f c)
  resume := hr

theorem Host.Confined.keeps (hh : h.Confined program) (hK : Cursor.Closed K)
    (hcall : ∀ d call, K d → K (d.perform call).2) :
    ∀ depth, (h.callbacks rounds depth).Keeps K c
  | 0 => hh.keeps_tied hcall fun _ => .exhausted
  | depth + 1 => hh.keeps_tied hcall fun p => p.keeps hK (hh.keeps hK hcall depth)

/-! ## Moments of a run -/

inductive Code (ω σ : Type) where
  | parser (p : Parser ω)
  | program (q : Program ω σ)

/-- When `x` is run from the state `s`, the state `u` is met on the way: where a part of it begins or
ends, or between the steps of a program. At most `depth` parsers made during the run are nested in each
other. -/
inductive Passes (h : Host ω σ) (program : ω → Program ω σ) (rounds : Nat) (c : Context ω) :
    (depth : Nat) → Code ω σ → State ω σ → State ω σ → Prop
  | start {n x s} : Passes h program rounds c n x s s
  | finish {n p s} :
      Passes h program rounds c n (.parser p) s (p.run (h.callbacks rounds n) c s).2
  | call {n m next s u}
      (hu : Passes h program rounds c n (.program (next (s.cursor.perform m).1))
        { s with cursor := (s.cursor.perform m).2 } u) :
      Passes h program rounds c n (.program (.call m next)) s u
  | look {n next s u}
      (hu : Passes h program rounds c n (.program (next c s.log s.own)) s u) :
      Passes h program rounds c n (.program (.look next)) s u
  | put {n log own next s u}
      (hu : Passes h program rounds c n (.program next) { s with log, own } u) :
      Passes h program rounds c n (.program (.put log own next)) s u
  | parsing {n p next s u} (hu : Passes h program rounds c n (.parser p) s u) :
      Passes h program rounds c (n + 1) (.program (.parse p next)) s u
  | parsed {n p next s r t u}
      (ht : Action.catching (fun _ => true) ((h.callbacks rounds n).resume p) c s = (.returned r, t))
      (hu : Passes h program rounds c n (.program (next r)) t u) :
      Passes h program rounds c n (.program (.parse p next)) s u
  | parsedText {n text p next s r t u}
      (ht : Action.catching (fun _ => true)
        (Action.withInput (.ofList text) ((h.callbacks rounds n).resume p)) c s = (.returned r, t))
      (hu : Passes h program rounds c n (.program (next r)) t u) :
      Passes h program rounds c n (.program (.parseText text p next)) s u
  | function {n name d f s u} (hu : Passes h program rounds c n (.program (program f)) s u) :
      Passes h program rounds c n (.parser (.function name d f)) s u
  | seqFirst {n p q s u} (hu : Passes h program rounds c n (.parser p) s u) :
      Passes h program rounds c n (.parser (.seq p q)) s u
  | seqSecond {n p q s a t u} (ht : p.run (h.callbacks rounds n) c s = (.returned a, t))
      (hu : Passes h program rounds c n (.parser q) t u) :
      Passes h program rounds c n (.parser (.seq p q)) s u
  | bindFirst {n p next s u} (hu : Passes h program rounds c n (.parser p) s u) :
      Passes h program rounds c n (.parser (.bind p next)) s u
  | bindSecond {n p next s a t v w t' q u}
      (ht : p.run (h.callbacks rounds (n + 1)) c s = (.returned a, t))
      (ht' : (h.callbacks rounds (n + 1)).call next v c t = (.returned w, t'))
      (hu : Passes h program rounds c n (.parser q) t' u) :
      Passes h program rounds c (n + 1) (.parser (.bind p next)) s u
  | map {n p f s u} (hu : Passes h program rounds c n (.parser p) s u) :
      Passes h program rounds c n (.parser (.map p f)) s u
  | refine {n p f err s u} (hu : Passes h program rounds c n (.parser p) s u) :
      Passes h program rounds c n (.parser (.refine p f err)) s u
  | convert {n p target s u} (hu : Passes h program rounds c n (.parser p) s u) :
      Passes h program rounds c n (.parser (.convert p target)) s u
  | mapErr {n p f err s u} (hu : Passes h program rounds c n (.parser p) s u) :
      Passes h program rounds c n (.parser (.mapErr p f err)) s u
  | altFirst {n p q s u} (hu : Passes h program rounds c n (.parser p) s u) :
      Passes h program rounds c n (.parser (.alt p q)) s u
  | altSecond {n p q s a t u} (ht : p.run (h.callbacks rounds n) c s = (.returned a, t))
      (hu : Passes h program rounds c n (.parser q) (t.backTo s.cursor.toMark) u) :
      Passes h program rounds c n (.parser (.alt p q)) s u
  | rewind {n p s u} (hu : Passes h program rounds c n (.parser p) s u) :
      Passes h program rounds c n (.parser (.rewind p)) s u
  | option {n default p s u} (hu : Passes h program rounds c n (.parser p) s u) :
      Passes h program rounds c n (.parser (.option default p)) s u
  | many {n p s vs t u}
      (ht : Parser.Strides c (fun _ _ => True) (p.run (h.callbacks rounds n)) s vs t)
      (hu : Passes h program rounds c n (.parser p) t u) :
      Passes h program rounds c n (.parser (.many p)) s u
  | sepBy1First {n p q s u} (hu : Passes h program rounds c n (.parser p) s u) :
      Passes h program rounds c n (.parser (.sepBy1 p q)) s u
  | sepBy1Sep {n p q s a r vs t u} (hr : p.run (h.callbacks rounds n) c s = (.returned a, r))
      (ht : Parser.Strides c (fun _ _ => True) (Parser.pairing (p.run (h.callbacks rounds n))
        (q.run (h.callbacks rounds n))) r vs t)
      (hu : Passes h program rounds c n (.parser q) t u) :
      Passes h program rounds c n (.parser (.sepBy1 p q)) s u
  | sepBy1Item {n p q s a r vs t b t' u}
      (hr : p.run (h.callbacks rounds n) c s = (.returned a, r))
      (ht : Parser.Strides c (fun _ _ => True) (Parser.pairing (p.run (h.callbacks rounds n))
        (q.run (h.callbacks rounds n))) r vs t)
      (ht' : q.run (h.callbacks rounds n) c t = (.returned b, t'))
      (hu : Passes h program rounds c n (.parser p) t' u) :
      Passes h program rounds c n (.parser (.sepBy1 p q)) s u
  | sepBy {n p q s u} (hu : Passes h program rounds c n (.parser (.sepBy1 p q)) s u) :
      Passes h program rounds c n (.parser (.sepBy p q)) s u
  | later {n d f s q t u} (ht : (h.callbacks rounds (n + 1)).force f c s = (.returned q, t))
      (hu : Passes h program rounds c n (.parser q) t u) :
      Passes h program rounds c (n + 1) (.parser (.later d f)) s u
  | traced {n label p s t u} (ht : Parser.runTrace label c s = (.returned (), t))
      (hu : Passes h program rounds c n (.parser p) t u) :
      Passes h program rounds c n (.parser (.traced label p)) s u

theorem Parser.Strides.keeps {R : Mark ω → Mark ω → Prop} {attempt : Action ω σ (Outcome ω)}
    {s t : State ω σ} {vs : List (Value ω)} (hx : attempt.Keeps K c)
    (hst : Strides c R attempt s vs t) (hs : K s.cursor) : K t.cursor := by
  induction hst with
  | nil => exact hs
  | cons hrun _ _ _ _ ih => exact ih (hx.returned hrun hs)

/-- What calls and moves keep is true at every moment of a run. -/
theorem Passes.keeps (hh : h.Confined program) (hK : Cursor.Closed K)
    (hcall : ∀ d call, K d → K (d.perform call).2) {depth : Nat} {x : Code ω σ}
    {s u : State ω σ} (hu : Passes h program rounds c depth x s u) (hs : K s.cursor) :
    K u.cursor := by
  have hcb (n : Nat) : (h.callbacks rounds n).Keeps K c := hh.keeps hK hcall n
  have hrun (n : Nat) (p : Parser ω) : (p.run (h.callbacks rounds n)).Keeps K c := p.keeps hK (hcb n)
  -- On the moments of the run: where a part begins, what ran before it has kept `K`.
  induction hu with
  | start => exact hs
  | finish => exact hrun _ _ _ hs
  | call _ ih => exact ih (hcall _ _ hs)
  | look _ ih | put _ ih | parsing _ ih | function _ ih | seqFirst _ ih | bindFirst _ ih | map _ ih
  | refine _ ih | convert _ ih | mapErr _ ih | altFirst _ ih | rewind _ ih | option _ ih
  | sepBy1First _ ih | sepBy _ ih => exact ih hs
  | parsed ht _ ih => exact ih ((Action.Keeps.catching ((hcb _).resume _)).returned ht hs)
  | parsedText ht _ ih => exact ih ((Action.Keeps.catching .withInput).returned ht hs)
  | seqSecond ht _ ih => exact ih ((hrun _ _).returned ht hs)
  | bindSecond ht ht' _ ih =>
    exact ih (((hcb _).call _ _).returned ht' ((hrun _ _).returned ht hs))
  | altSecond ht _ ih => exact ih (hK.backTo ((hrun _ _).returned ht hs) hs)
  | many ht _ ih => exact ih (ht.keeps (hrun _ _) hs)
  | sepBy1Sep hr ht _ ih =>
    exact ih (ht.keeps (Parser.keeps_pairing (hrun _ _) (hrun _ _)) ((hrun _ _).returned hr hs))
  | sepBy1Item hr ht ht' _ ih =>
    exact ih ((hrun _ _).returned ht'
      (ht.keeps (Parser.keeps_pairing (hrun _ _) (hrun _ _)) ((hrun _ _).returned hr hs)))
  | later ht _ ih => exact ih (((hcb _).force _).returned ht hs)
  | traced ht _ ih => exact ih (Parser.keeps_runTrace.returned ht hs)

/-! ## Soundness -/

omit [HostObject ω] in
theorem Parser.skipRun_apply (p : Char → Bool) (s : State ω σ) :
    skipRun p c s = (.returned (s.cursor.rest.takeWhile p).length,
      if (s.cursor.rest.takeWhile p).length = 0 then s
      else { s with
        cursor := s.cursor.onTo (s.cursor.pos + (s.cursor.rest.takeWhile p).length) }) := by
  unfold skipRun
  rw [Action.bind_apply, Action.cursor_apply]
  by_cases hn : (s.cursor.rest.takeWhile p).length = 0 <;> simp [hn, Action.bind_apply]

/-- The parsers that hand out a part of the input. -/
inductive Parser.Cuts : Parser ω → Prop
  | nextChar : Cuts .nextChar
  | word : Cuts .word
  | take (literal : String) : Cuts (.take literal)

theorem Parser.Cuts.partOf {cb : Callbacks ω σ} {p : Parser ω} (hp : p.Cuts) {s t : State ω σ}
    {v : Value ω} (hs : s.cursor.Inside source) (ht : p.run cb c s = (.returned (.ok v), t)) :
    v.PartOf source s.cursor.pos t.cursor.pos := by
  have hin : s.cursor.pos ≤ s.cursor.source.length := hs.same ▸ hs.within
  cases hp with
  | nextChar =>
    rw [run, Action.bind_apply, Action.cursor_apply] at ht
    dsimp only at ht
    split at ht
    · cases ht
    · next hend =>
      cases ht
      exact hs.partOf_spanTo (hs.same ▸ Cursor.next_within hend)
  | word =>
    rw [run, Action.bind_apply, Action.cursor_apply] at ht
    dsimp only at ht
    rw [Action.bind_apply, skipRun_apply] at ht
    dsimp only at ht
    split at ht
    · cases ht
    · cases ht
      exact hs.partOf_spanTo (hs.same ▸ Cursor.takeWhile_within hin _)
  | take literal =>
    rw [run, Action.bind_apply, Action.cursor_apply] at ht
    dsimp only at ht
    split at ht
    · next hstart =>
      cases ht
      exact hs.partOf_spanTo (hs.same ▸ Cursor.literal_within hin hstart)
    · cases ht

theorem Cursor.sound_throughout {place : Value ω} {d : Cursor ω}
    (hd : Cursor.at? source place = .ok d) :
    (∀ calls, (d.after calls).Sound source) ∧
    ∀ {h : Host ω σ} {program : ω → Program ω σ}, h.Confined program →
      ∀ {rounds depth : Nat} {c : Context ω} {p : Parser ω} {s u : State ω σ}, s.cursor = d →
        Passes h program rounds c depth (.parser p) s u → u.cursor.Sound source ∧
          ∀ {cb : Callbacks ω σ} {q : Parser ω} {v : Value ω} {t : State ω σ}, q.Cuts →
            q.run cb c u = (.returned (.ok v), t) → v.PartOf source u.cursor.pos t.cursor.pos := by
  have hin : d.Inside source := inside_of_at? hd
  refine ⟨fun calls => (hin.after calls).sound, ?_⟩
  rintro h program hh rounds depth c p s u rfl hu
  have hcall (d : Cursor ω) (m : Call ω) (hd : d.Inside source) : (d.perform m).2.Inside source :=
    (hd.performs m).inside hd
  have huin : u.cursor.Inside source := hu.keeps hh closed_inside hcall hin
  exact ⟨huin.sound, fun hq ht => hq.partOf huin ht⟩

/-- The second round of the repetition asks for more than is left, again and again, and gives up with
an exception. -/
theorem Cursor.sound_throughout_greedy :
    let greedy : Program Assignment.Function Unit :=
      .call (.advance (.int (-1))) fun _ => .call (.take (.int 1)) fun
        | .ok v => .done (.ok v)
        | .error _ => .call (.tryTake (.int 5)) fun _ => .raise (.str "no more")
    let h : Host Assignment.Function Unit :=
      ⟨fun _ _ v => return v, fun run _ => greedy.act run, fun _ _ => return .word,
        fun o => .other (.host o)⟩
    let c : Context Assignment.Function := ⟨.empty, {}, .warning⟩
    let p : Parser Assignment.Function := .many (.function "greedy" .undeclared .assignment)
    let d : Cursor Assignment.Function := ⟨⟨1, none⟩, ['a', 'b']⟩
    let r := p.run (h.callbacks 3 1) c ⟨d, [], ()⟩
    Cursor.at? ['a', 'b'] (.int 1) = .ok d ∧ h.Confined (fun _ => greedy) ∧
      Passes h (fun _ => greedy) 3 c 1 (.parser p) ⟨d, [], ()⟩ r.2 ∧
        (r.1 matches .raised _) ∧ r.2.cursor.pos = 2 ∧ r.2.cursor.Sound ['a', 'b'] ∧
          ∃ v t, Parser.nextChar.run (h.callbacks 3 1) c ⟨d, [], ()⟩ = (.returned (.ok v), t) ∧
            v.PartOf ['a', 'b'] 1 2 := by
  intro greedy h c p d r
  have hd : Cursor.at? ['a', 'b'] (.int 1) = .ok d := rfl
  have hh : h.Confined fun _ => greedy := ⟨fun _ _ => rfl, fun _ _ _ _ _ => rfl, fun _ _ _ _ => rfl⟩
  have hr : Passes h (fun _ => greedy) 3 c 1 (.parser p) ⟨d, [], ()⟩ r.2 := .finish
  have hend : (r.1 matches .raised _) ∧ r.2.cursor.pos = 2 := by decide +kernel
  have hs : Passes h (fun _ => greedy) 3 c 1 (.parser p) ⟨d, [], ()⟩ ⟨d, [], ()⟩ := .start
  have ht : Parser.nextChar.run (h.callbacks 3 1) c ⟨d, [], ()⟩ =
      (.returned (.ok (d.spanTo 2)), ⟨⟨⟨2, none⟩, ['a', 'b']⟩, [], ()⟩) := rfl
  exact ⟨hd, hh, hr, hend.1, hend.2, ((sound_throughout hd).2 hh rfl hr).1, _, _, ht,
    ((sound_throughout hd).2 hh rfl hs).2 .nextChar ht⟩

end ParserAlgebra
