import ParserAlgebra.Proofs.Composed
import ParserAlgebra.Proofs.Confinement
import ParserAlgebra.Proofs.Truthful

/-!
# Onward

What survives the moves of the cursor (`Cursor.Closed`) is true after the run of a parser without
parsing functions, and true of every place at which such a parser reports a failure
(`Parser.Composed.lands`): the places are those of cursors met on the way. The functions of the host
program need not keep it, if they leave the cursor alone and tell no places of their own
(`Callbacks.Unobtrusive`). So a run never ends before its start, and its failures lie between the start
and the end of the input (`Parser.Composed.onward`).
-/

namespace ParserAlgebra

variable {ω σ α β : Type} {K : Cursor ω → Prop} {c : Context ω}

namespace Action

/-- From where `K` is true of the cursor, `K` is true of it however the action ends, and only what
satisfies `P` is returned. -/
structure Lands (K : Cursor ω → Prop) (c : Context ω) (P : α → Prop) (x : Action ω σ α) : Prop where
  keeps : x.Keeps K c
  returned : ∀ {s a t}, K s.cursor → x c s = (.returned a, t) → P a

namespace Lands

variable {P Q : α → Prop} {T : β → Prop} {x y : Action ω σ α}

theorem of_keeps (h : x.Keeps K c) : x.Lands K c fun _ => True := ⟨h, fun _ _ => trivial⟩

protected theorem pure {a : α} (h : P a) : (Pure.pure a : Action ω σ α).Lands K c P := by
  refine ⟨.pure a, fun _ hx => ?_⟩
  obtain ⟨rfl, -⟩ := by simpa using hx
  exact h

protected theorem bind {f : α → Action ω σ β} (hx : x.Lands K c P)
    (hf : ∀ a, P a → (f a).Lands K c T) : (x >>= f).Lands K c T := by
  refine ⟨fun s hs => ?_, fun {s b t} hs h => ?_⟩
  · have hu := hx.keeps s hs
    rw [bind_apply]
    rcases h : x c s with ⟨a | e | _, u⟩ <;> rw [h] at hu
    · exact (hf a (hx.returned hs h)).keeps u hu
    · exact hu
    · exact hu
  · obtain ⟨a, u, ha, hb⟩ := bind_returned.1 h
    exact (hf a (hx.returned hs ha)).returned (hx.keeps.returned ha hs) hb

theorem after {f : α → Action ω σ β} (hx : x.Keeps K c) (hf : ∀ a, (f a).Lands K c T) :
    (x >>= f).Lands K c T :=
  (of_keeps hx).bind fun a _ => hf a

protected theorem fault (f : Fault) : (fault f : Action ω σ α).Lands K c P :=
  ⟨.fault f, fun _ h => by simp at h⟩

protected theorem exhausted : (exhausted : Action ω σ α).Lands K c P :=
  ⟨.exhausted, fun _ h => by simp at h⟩

theorem ask {q : Except Fault α} (hP : ∀ a, q = .ok a → P a) :
    (liftM q : Action ω σ α).Lands K c P := by
  rcases q with f | a
  · exact .fault f
  · exact .pure (hP a rfl)

theorem cursor_bind {f : Cursor ω → Action ω σ α} (hf : ∀ d, K d → (f d).Lands K c P) :
    (cursor >>= f).Lands K c P :=
  ⟨.cursor_bind fun d hd => (hf d hd).keeps, fun {s _ _} hs h => (hf s.cursor hs).returned hs h⟩

theorem save_bind {f : Mark ω → Action ω σ α} (hf : ∀ d, K d → (f d.toMark).Lands K c P) :
    (save >>= f).Lands K c P :=
  ⟨.save_bind fun d hd => (hf d hd).keeps, fun {s _ _} hs h => (hf s.cursor hs).returned hs h⟩

theorem context_bind {f : Context ω → Action ω σ α} (hf : (f c).Lands K c P) :
    (context >>= f).Lands K c P := ⟨hf.keeps, hf.returned⟩

/-- What was returned and not caught satisfies `P`. -/
theorem catching {p : Value ω → Bool} (hx : x.Lands K c P) :
    (catching p x).Lands K c fun r => ∀ a, r = .ok a → P a := by
  refine ⟨.catching hx.keeps, fun {s r t} hs h => ?_⟩
  rcases hx' : x c s with ⟨a | e | _, u⟩ <;> simp only [Action.catching, hx'] at h
  · obtain ⟨rfl, -⟩ := by simpa using h
    rintro b hb
    exact Except.ok.inj hb ▸ hx.returned hs hx'
  · split at h
    · obtain ⟨rfl, -⟩ := by simpa using h
      exact fun _ hb => by cases hb
    · simp at h
  · simp at h

theorem ifSucceeded [HostObject ω] {res : Outcome ω} (hx : x.Lands K c P) (hy : y.Lands K c P) :
    Lands K c P (do if ← res.succeeded then x else y) := by
  refine .after .ask fun b => ?_
  cases b
  · exact hy
  · exact hx

end Lands

end Action

/-- What is returned gives no place, unless it is a failure that says so itself. -/
def Value.Unplaced [HostObject ω] (w : Value ω) : Prop :=
  ∀ pos, w.get .pos = .ok pos → w.isA .err = true ∧ pos = .none

/-- An outcome tells no place but those of cursors of which `K` is true, and it is a failure only as an
error at a place. -/
structure Outcome.Sited [HostObject ω] (K : Cursor ω → Prop) (res : Outcome ω) : Prop where
  place : ∀ {pos}, res.pos = .ok pos → ∃ d, K d ∧ pos = d.value
  failure : res.toValue.isA .err = true → ∃ e pos, res = .err e pos

variable [HostObject ω] {cb : Callbacks ω σ}

namespace Outcome

theorem sited_ok (v : Value ω) : (ok v).Sited K :=
  ⟨fun {_} h => (by cases h), fun h => absurd h (show ¬ Kind.ok.isA .err = true by decide)⟩

theorem sited_err {d : Cursor ω} (hd : K d) (e : Value ω) : (err e d.value).Sited K :=
  ⟨fun {_} h => ⟨d, hd, (Except.ok.inj h).symm⟩, fun _ => ⟨_, _, rfl⟩⟩

theorem sited_failedAt {d : Cursor ω} (hd : K d) (e : Value ω) : (failedAt e d.toMark).Sited K :=
  sited_err hd e

/-- Another error at the place of a failure. -/
theorem Sited.err {res : Outcome ω} (h : res.Sited K) {pos : Value ω} (hpos : res.pos = .ok pos)
    (e : Value ω) : (Outcome.err e pos).Sited K := by
  obtain ⟨d, hd, rfl⟩ := h.place hpos
  exact sited_err hd e

theorem sited_ofValue {w : Value ω} (hw : w.Unplaced) (h : ¬ w.isA .err = true) :
    (ofValue w).Sited K := by
  refine ⟨fun hpos => ?_, fun herr => ?_⟩
  · rw [pos, toValue_ofValue] at hpos
    exact absurd (hw _ hpos).1 h
  · rw [toValue_ofValue] at herr
    exact absurd herr h

end Outcome

variable {F : Use → ω → Prop}

/-- The functions that satisfy `F` leave the cursor alone. Those that may refuse a value give no place,
and what is made by those that make parsers has such functions itself. -/
structure Callbacks.Unobtrusive (cb : Callbacks ω σ) (c : Context ω) (F : Use → ω → Prop) :
    Prop where
  call : ∀ {use f v s}, F use f → (cb.call f v c s).2.cursor = s.cursor
  force : ∀ {f s}, F .deferring f → (cb.force f c s).2.cursor = s.cursor
  conversion : ∀ {source d f}, c.registry.route? source d = .ok (some (.function f)) → F .mapping f
  refined : ∀ {f v s w t}, F .refining f → cb.call f v c s = (.returned w, t) → w.Unplaced
  made : ∀ {f v s w t q}, F .making f → cb.call f v c s = (.returned w, t) →
    (Operand.ofValue cb.operand w).toParser none = .ok q → q.Composed F
  forced : ∀ {f s q t}, F .deferring f → cb.force f c s = (.returned q, t) → q.Composed F

namespace Callbacks.Unobtrusive

variable (hcb : cb.Unobtrusive c F) {f : ω}

include hcb

theorem keeps_call {use : Use} (hf : F use f) (v : Value ω) : (cb.call f v).Keeps K c :=
  .of_cursor_eq fun _ => hcb.call hf

theorem lands_refined (hf : F .refining f) (v : Value ω) :
    (cb.call f v).Lands K c Value.Unplaced :=
  ⟨hcb.keeps_call hf v, fun _ h => hcb.refined hf h⟩

theorem lands_made (hf : F .making f) (v : Value ω) :
    (cb.call f v).Lands K c fun w =>
      ∀ q, (Operand.ofValue cb.operand w).toParser none = .ok q → q.Composed F :=
  ⟨hcb.keeps_call hf v, fun _ h _ hq => hcb.made hf h hq⟩

theorem lands_forced (hf : F .deferring f) :
    (cb.force f).Lands K c (Parser.Composed F) :=
  ⟨.of_cursor_eq fun _ => hcb.force hf, fun _ h => hcb.forced hf h⟩

theorem lands_coerce (e : Value ω) (d : Declared ω) :
    (Conversion.coerce cb e d).Lands K c fun _ => True := by
  have happly {source : Kind} {conv : Conversion ω}
      (h : c.registry.route? source d = .ok (some conv)) :
      (Conversion.apply cb d e conv).Lands K c fun _ => True := by
    rcases conv with _ | f
    · rcases d with t | v
      · exact .ask fun _ _ => trivial
      · exact .fault _
    · exact .of_keeps (hcb.keeps_call (hcb.conversion h) e)
  unfold Conversion.coerce
  split
  · exact .pure trivial
  · split
    · exact .pure trivial
    · refine .context_bind ?_
      split
      · next h => exact happly (congrArg Except.ok h)
      · exact .of_keeps (.bind .note fun _ => .fault _)
    · refine .context_bind (.bind (.ask fun _ h => h) fun conv? h => ?_)
      split
      · exact happly h
      · exact .fault _
    · exact .fault _

end Callbacks.Unobtrusive

namespace Parser

open ParserAlgebra.Action

variable {p q : Parser ω}

section Pieces

variable (hcb : cb.Unobtrusive c F)

include hcb

/-- The error of a failure is converted, its place is left. -/
theorem lands_retarget {name : String} {source target : Declared ω} {res : Outcome ω}
    (hres : res.Sited K) : (retarget cb name source target res).Lands K c (Outcome.Sited K) := by
  refine .after .ask fun k => ?_
  split
  · exact .after .ask fun e => .after .ask fun said => .fault _
  · refine .after .ask fun e => .bind (hcb.lands_coerce e target) fun e' _ => ?_
    exact .bind (.ask fun _ h => h) fun pos hpos => .pure (hres.err hpos e')

theorem lands_refined {target : Declared ω} {w : Value ω} (hw : w.Unplaced) :
    (refined cb target w).Lands K c (Outcome.Sited K) := by
  unfold refined
  split
  · refine .after .ask fun e => .bind (hcb.lands_coerce e target) fun e' _ => ?_
    refine .bind (.ask fun _ h => h) fun pos hpos => ?_
    -- The function has told no place, so the failure is reported at the cursor.
    obtain ⟨-, rfl⟩ := hw pos hpos
    exact .save_bind fun d hd => .pure (Outcome.sited_failedAt hd e')
  · next herr =>
    split
    · exact .pure (Outcome.sited_ofValue hw herr)
    · exact .pure (Outcome.sited_ok w)

theorem keeps_mapping {f : Mapping ω} (hf : ∀ g, f = .function g → F .mapping g) (v : Value ω) :
    (f.apply cb v).Keeps K c := by
  unfold Mapping.apply
  split
  · exact .pure _
  · exact .pure _
  · exact .pure _
  · exact .pure _
  · exact hcb.keeps_call (hf _ rfl) _
  · exact .pure _

end Pieces

theorem lands_runSepBy1 (hK : Cursor.Closed K) {item sep : Action ω σ (Outcome ω)}
    (hi : item.Lands K c (Outcome.Sited K)) (hs : sep.Keeps K c) {name : String} :
    (runSepBy1 cb name item sep).Lands K c (Outcome.Sited K) := by
  unfold runSepBy1
  refine .bind hi fun res hres => .ifSucceeded ?_ (.pure hres)
  refine .after .ask fun v => ?_
  rw [separated_eq_looped]
  exact .after (keeps_looped hK (keeps_pairing hi.keeps hs)) fun vs => .pure (Outcome.sited_ok _)

/-- Where the parsers that are made during the run land, lands every parser of theirs. -/
theorem Composed.lands (hK : Cursor.Closed K) (hcb : cb.Unobtrusive c F)
    (hresume : ∀ q : Parser ω, q.Composed F → (cb.resume q).Lands K c (Outcome.Sited K))
    (hp : p.Composed F) : (p.run cb).Lands K c (Outcome.Sited K) := by
  induction hp with
  | nextChar =>
    refine .cursor_bind fun d hd => ?_
    split
    · exact .pure (Outcome.sited_failedAt hd _)
    · next hend =>
      have hstop : K (d.onTo (d.pos + 1)) := hK.onTo hd (Nat.le_succ _) (Cursor.next_within hend)
      exact .after (.setCursor hstop) fun _ => .pure (Outcome.sited_ok _)
  | word =>
    refine .cursor_bind fun d hd => .after (keeps_skipRun hK) fun n => ?_
    split
    · exact .pure (Outcome.sited_failedAt hd _)
    · exact .pure (Outcome.sited_ok _)
  | whitespace => exact .after (keeps_skipRun hK) fun n => .pure (Outcome.sited_ok _)
  | eof =>
    refine .cursor_bind fun d hd => ?_
    split
    · exact .pure (Outcome.sited_ok _)
    · exact .after .context fun _ => .after .ask fun found =>
        .pure (Outcome.sited_failedAt hd _)
  | take literal =>
    refine .cursor_bind fun d hd => ?_
    dsimp only
    split
    · next hstart =>
      have hstop : K (d.onTo (d.pos + literal.length)) :=
        hK.onTo hd (Nat.le_add_right _ _) (Cursor.literal_within (hK.within hd) hstart)
      exact .after (.setCursor hstop) fun _ => .pure (Outcome.sited_ok _)
    · exact .pure (Outcome.sited_failedAt hd _)
  | pure v => exact .pure (Outcome.sited_ok v)
  | fail e => exact .save_bind fun d hd => .pure (Outcome.sited_failedAt hd e)
  | seq _ _ ihp ihq =>
    refine .bind ihp fun a ha => .ifSucceeded ?_ (lands_retarget hcb ha)
    refine .bind ihq fun b hb => .ifSucceeded ?_ (lands_retarget hcb hb)
    exact .after .ask fun v => .after .ask fun w => .pure (Outcome.sited_ok _)
  | bind _ hf ih =>
    refine .bind ih fun a ha => .ifSucceeded ?_ (lands_retarget hcb ha)
    refine .after .ask fun v => .bind (hcb.lands_made hf v) fun w hw => ?_
    refine .bind (.ask hw) fun q hq => .bind (hresume q hq) fun out hout => ?_
    exact .ifSucceeded (.pure hout) (lands_retarget hcb hout)
  | map _ hf ih =>
    exact .bind ih fun a ha => .ifSucceeded (.after .ask fun v =>
      .after (keeps_mapping hcb hf v) fun w => .pure (Outcome.sited_ok w)) (.pure ha)
  | refine _ hf err ih =>
    refine .bind ih fun a ha => .ifSucceeded ?_ (lands_retarget hcb ha)
    refine .bind (.catching (.after .ask (hcb.lands_refined hf))) fun r hr => ?_
    rcases r with e | w
    · exact .bind (hcb.lands_coerce e _) fun e' _ => .save_bind fun d hd =>
        .pure (Outcome.sited_failedAt hd e')
    · exact lands_refined hcb (hr w rfl)
  | convert _ target ih =>
    exact .bind ih fun a ha => .ifSucceeded (.pure ha) (lands_retarget hcb ha)
  | mapErr _ hf err ih =>
    refine .bind ih fun a ha => .ifSucceeded (.pure ha) ?_
    refine .after .ask fun e => .after (hcb.keeps_call hf e) fun e' => ?_
    exact .bind (.ask fun _ h => h) fun pos hpos => .pure (ha.err hpos e')
  | alt _ _ ihp ihq =>
    refine .save_bind fun d hd => .bind ihp fun a ha => .ifSucceeded (.pure ha) ?_
    refine .after (.rewindTo hK hd) fun _ => .bind ihq fun b hb => .ifSucceeded (.pure hb) ?_
    exact .after (.rewindTo hK hd) fun _ => lands_retarget hcb hb
  | rewind _ ih =>
    exact .save_bind fun d hd => .bind ih fun a ha => .ifSucceeded (.pure ha)
      (.after (.rewindTo hK hd) fun _ => .pure ha)
  | option default _ ih =>
    exact .save_bind fun d hd => .bind ih fun a ha => .ifSucceeded (.pure ha)
      (.after (.rewindTo hK hd) fun _ => .pure (Outcome.sited_ok default))
  | many _ ih =>
    rw [run, repeated_eq_looped]
    exact .after (keeps_looped hK ih.keeps) fun vs => .pure (Outcome.sited_ok _)
  | sepBy1 _ _ ihp ihq => exact lands_runSepBy1 hK ihp ihq.keeps
  | sepBy _ _ ihp ihq =>
    exact .save_bind fun d hd => .bind (lands_runSepBy1 hK ihp ihq.keeps) fun a ha =>
      .ifSucceeded (.pure ha) (.after (.rewindTo hK hd) fun _ => .pure (Outcome.sited_ok _))
  | later d hf => exact .bind (hcb.lands_forced hf) hresume
  | trace label => exact .after keeps_runTrace fun _ => .pure (Outcome.sited_ok _)
  | traced label _ ih =>
    refine .after keeps_runTrace fun _ => .save_bind fun d hd => .bind ih fun a ha => ?_
    refine .ifSucceeded ?_ ?_
    · exact .after .ask fun v => .after keeps_logShown fun _ => .pure ha
    · exact .after (.rewindTo hK hd) fun _ => .after keeps_runTrace fun _ =>
        .after .ask fun e => .after keeps_logShown fun _ => .pure ha

/-- The same, when the host program's functions are tied to runs: on how deep the parsers that are made
during the run are nested in each other. -/
theorem Composed.lands_callbacks {h : Host ω σ} {rounds : Nat} (hK : Cursor.Closed K)
    (hh : ∀ depth, (h.callbacks rounds depth).Unobtrusive c F) :
    ∀ (depth : Nat) {p : Parser ω}, p.Composed F →
      (p.run (h.callbacks rounds depth)).Lands K c (Outcome.Sited K)
  | 0, _, hp => hp.lands hK (hh 0) fun _ _ => .exhausted
  | depth + 1, _, hp => hp.lands hK (hh (depth + 1)) fun _ hq => lands_callbacks hK hh depth hq

end Parser

/-- Where nothing is declared there is no conversion. -/
theorem Registry.route?_empty (source : Kind) (d : Declared ω) (conv : Conversion ω) :
    Registry.empty.route? source d ≠ .ok (some conv) := by
  rcases d with t | v
  · have hfind : (Registry.empty : Registry ω).find? source t = none :=
      List.findSome?_eq_none_iff.2 fun _ _ => rfl
    exact fun h => by cases hfind.symm.trans (Except.ok.inj h)
  · exact Registry.stray?_of_nil rfl source v conv

/-! ## The region of a parse -/

/-- A cursor in its input that is not before the place `start`. -/
def Cursor.From (source : List Char) (start : Nat) (d : Cursor ω) : Prop :=
  d.Inside source ∧ start ≤ d.pos

omit [HostObject ω] in
theorem Cursor.closed_from {source : List Char} {start : Nat} :
    Cursor.Closed (Cursor.From (ω := ω) source start) where
  within h := closed_inside.within h.1
  onTo h hn hl := ⟨closed_inside.onTo h.1 hn hl, Nat.le_trans h.2 hn⟩
  backTo h he := ⟨closed_inside.backTo h.1 he.1, he.2⟩

/-- However the run ends, it does not end before its start, nor outside the input; and a failure that it
returns is reported between its start and the end of the input. -/
theorem Parser.Composed.onward {h : Host ω σ} {rounds depth : Nat} {p : Parser ω}
    {source : List Char} {s : State ω σ} (hp : p.Composed F)
    (hh : ∀ n, (h.callbacks rounds n).Unobtrusive c F) (hs : s.cursor.Inside source) :
    s.cursor.pos ≤ (p.run (h.callbacks rounds depth) c s).2.cursor.pos ∧
      (p.run (h.callbacks rounds depth) c s).2.cursor.pos ≤ source.length ∧
      ∀ {a t}, p.run (h.callbacks rounds depth) c s = (.returned a, t) →
        a.toValue.isA .err = true → ∃ e pos, ∃ n : Nat, a = .err e pos ∧ pos.toInt? = some (n : Int) ∧
          s.cursor.pos ≤ n ∧ n ≤ source.length := by
  have hlands : (p.run (h.callbacks rounds depth)).Lands c (K := Cursor.From source s.cursor.pos)
      (Outcome.Sited (Cursor.From source s.cursor.pos)) :=
    hp.lands_callbacks Cursor.closed_from hh depth
  have hstart : s.cursor.From source s.cursor.pos := ⟨hs, Nat.le_refl _⟩
  have hend := hlands.keeps s hstart
  refine ⟨hend.2, hend.1.within, fun {a t} hr hfail => ?_⟩
  have hsited := hlands.returned hstart hr
  obtain ⟨e, pos, rfl⟩ := hsited.failure hfail
  obtain ⟨d, hd, rfl⟩ := hsited.place rfl
  exact ⟨e, _, d.pos, rfl, hd.1.given.toInt?, hd.2, hd.1.within⟩

/-- The parser that the first function makes takes a character, which the second function refuses. The
failure is reported behind it, and the cursor goes back to the start. -/
theorem Parser.Composed.onward_rewind :
    let refusal : Value Assignment.Function := .exception .endOfInput [] .nil
    let made : Parser Assignment.Function := .refine .nextChar .number (.kind .endOfInput)
    let answer : Assignment.Function → Value Assignment.Function
      | .assignment => .host .number
      | .number => .err refusal .none
    let h : Host Assignment.Function Unit :=
      ⟨fun _ f _ => return answer f, fun _ _ => return .none, fun _ _ => return .word,
        fun _ => .parser made⟩
    let F (use : Use) (f : Assignment.Function) : Prop :=
      (use = .making ∧ f = .assignment) ∨ (use = .refining ∧ f = .number)
    let c : Context Assignment.Function := ⟨.empty, {}, .warning⟩
    let p : Parser Assignment.Function := .rewind (.bind .nextChar .assignment)
    let s : State Assignment.Function Unit := ⟨⟨⟨1, none⟩, ['-', 'a', 'b']⟩, [], ()⟩
    let r := p.run (h.callbacks 3 1) c s
    let a : Outcome Assignment.Function := .err refusal (.int 3)
    p.Composed F ∧ (∀ n, (h.callbacks 3 n).Unobtrusive c F) ∧ s.cursor.Inside ['-', 'a', 'b'] ∧
      r = (.returned a, s) ∧ 1 ≤ r.2.cursor.pos ∧
      ∃ e pos, ∃ n : Nat, a = .err e pos ∧ pos.toInt? = some (n : Int) ∧ 1 ≤ n ∧ n ≤ 3 := by
  intro refusal made answer h F c p s r a
  have hp : p.Composed F := .rewind (.bind .nextChar (.inl ⟨rfl, rfl⟩))
  have hmade : made.Composed F := .refine .nextChar (.inr ⟨rfl, rfl⟩) _
  have hh (n : Nat) : (h.callbacks 3 n).Unobtrusive c F := by
    have hcall (f v t) : (h.callbacks 3 n).call f v c t = (.returned (answer f), t) := by
      cases n <;> rfl
    have hoperand : (h.callbacks 3 n).operand = h.operand := by cases n <;> rfl
    refine ⟨fun _ => by rw [hcall], ?_, fun hf => absurd hf (Registry.route?_empty _ _ _), ?_, ?_, ?_⟩
    · rintro f t (⟨⟨⟩, -⟩ | ⟨⟨⟩, -⟩)
    · rintro f v t w u (⟨⟨⟩, -⟩ | ⟨-, rfl⟩) hw
      obtain ⟨rfl, -⟩ := by simpa [hcall] using hw
      exact fun pos hpos => ⟨by decide, (Except.ok.inj hpos).symm⟩
    · rintro f v t w u q (⟨-, rfl⟩ | ⟨⟨⟩, -⟩) hw hq
      obtain ⟨rfl, -⟩ := by simpa [hcall] using hw
      rw [hoperand] at hq
      exact Except.ok.inj hq ▸ hmade
    · rintro f t q u (⟨⟨⟩, -⟩ | ⟨⟨⟩, -⟩)
  have hs : s.cursor.Inside ['-', 'a', 'b'] := ⟨rfl, by decide, Mark.given_mk 1⟩
  have hr : r = (.returned a, s) := rfl
  obtain ⟨hpos, -, hplace⟩ : 1 ≤ r.2.cursor.pos ∧ _ := hp.onward hh hs
  exact ⟨hp, hh, hs, hr, hpos, hplace hr rfl⟩

end ParserAlgebra
