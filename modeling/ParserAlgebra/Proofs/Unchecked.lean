import ParserAlgebra.Proofs.AssignmentParts
import ParserAlgebra.Proofs.Confinement

/-!
# Runs that do not check progress

The check of progress only stops a run. What is done where progress is checked is what is done where it is
not, unless the check raises its exception (`Action.Agrees`); this is so of each step, and so of a whole run
(`Parser.agrees_run`). Therefore a run that is not stopped comes to the same without the check, and a run
that ends without the check comes to the same with it or is stopped (`Parser.progress_guarded`).

The functions of the host program must not depend on the check themselves (`Host.Heedless`). Its parsing
functions pass on the exception of a parser that they run.
-/

namespace ParserAlgebra

variable {ω σ α β : Type}

/-- The same settings but for the check of progress. -/
def Context.checking (c : Context ω) (check : Value ω) : Context ω :=
  { c with settings := { c.settings with checkProgress := check } }

variable [HostObject ω] {c : Context ω} {off : Value ω} {source : List Char}

/-- The cursor is at a place of an input of which all places can be told: none of their numbers is too
long to be written. -/
structure Cursor.Tellable (source : List Char) (d : Cursor ω) : Prop where
  same : d.source = source
  short : source.length < Numeral.writeLimit
  within : d.pos ≤ source.length
  told : ∃ said, d.value.text? = .ok said

theorem Cursor.closed_tellable : Cursor.Closed (Cursor.Tellable (ω := ω) source) where
  within h := h.same ▸ h.within
  onTo h _ hn :=
    have hn := h.same ▸ hn
    ⟨h.same, h.short, hn, _, Mark.text?_mk (Nat.lt_of_le_of_lt hn h.short)⟩
  backTo h he := ⟨h.same, h.short, he.within, he.told⟩

namespace Action

/-- Where progress is not checked the action does the same, unless it raises one of the exceptions `E`
where it is checked; and it stays in the input. -/
structure Agrees (c : Context ω) (off : Value ω) (source : List Char) (E : Value ω → Prop)
    (x : Action ω σ α) : Prop where
  keeps : x.Keeps (Cursor.Tellable source) c
  same : ∀ s, s.cursor.Tellable source →
    (∃ e t, x c s = (.raised e, t) ∧ E e) ∨ x c s = x (c.checking off) s

namespace Agrees

variable {E : Value ω → Prop} {x : Action ω σ α}

theorem of_eq (hk : x.Keeps (Cursor.Tellable source) c) (h : ∀ s, x c s = x (c.checking off) s) :
    x.Agrees c off source E := ⟨hk, fun s _ => .inr (h s)⟩

theorem eq_of_never (hx : x.Agrees c off source fun _ => False) {s : State ω σ}
    (hs : s.cursor.Tellable source) : x c s = x (c.checking off) s := by
  rcases hx.same s hs with ⟨_, _, _, h⟩ | h
  · exact h.elim
  · exact h

/-- What raises no exception of the check may stand anywhere. -/
theorem anywhere (hx : x.Agrees c off source fun _ => False) : x.Agrees c off source E :=
  ⟨hx.keeps, fun _ hs => .inr (hx.eq_of_never hs)⟩

protected theorem pure (a : α) : (Pure.pure a : Action ω σ α).Agrees c off source E :=
  of_eq (.pure a) fun _ => rfl

protected theorem fault (f : Fault) : (fault f : Action ω σ α).Agrees c off source E :=
  of_eq (.fault f) fun _ => rfl

protected theorem exhausted : (exhausted : Action ω σ α).Agrees c off source E :=
  of_eq .exhausted fun _ => rfl

theorem ask {q : Except Fault α} : (liftM q : Action ω σ α).Agrees c off source E := by
  rcases q with f | a
  · exact .fault f
  · exact .pure a

theorem writes {l : Level} : (writes l : Action ω σ Bool).Agrees c off source E :=
  of_eq .writes fun _ => rfl

theorem log {l : Level} {ch : Level.Channel} {m : String} :
    (log l ch m : Action ω σ Unit).Agrees c off source E := of_eq .log fun _ => rfl

theorem note {l : Level} {ch : Level.Channel} {m : Except Fault String} :
    (note l ch m : Action ω σ Unit).Agrees c off source E := by
  rcases m with f | m
  · rw [note_error]
    exact .pure ()
  · rw [note_ok]
    exact .log

theorem setCursor {d : Cursor ω} (hd : d.Tellable source) :
    (setCursor d : Action ω σ Unit).Agrees c off source E := of_eq (.setCursor hd) fun _ => rfl

theorem rewindTo {d : Cursor ω} (hd : d.Tellable source) :
    (rewindTo d.toMark : Action ω σ Unit).Agrees c off source E :=
  of_eq (.rewindTo Cursor.closed_tellable hd) fun _ => rfl

protected theorem bind {f : α → Action ω σ β} (hx : x.Agrees c off source E)
    (hf : ∀ a, (f a).Agrees c off source E) : (x >>= f).Agrees c off source E := by
  refine ⟨.bind hx.keeps fun a => (hf a).keeps, fun s hs => ?_⟩
  rw [bind_apply, bind_apply]
  rcases hx.same s hs with ⟨e, t, hr, he⟩ | heq
  · rw [hr]
    exact .inl ⟨e, t, rfl, he⟩
  · rw [← heq]
    rcases hr : x c s with ⟨a | e | _, t⟩
    · exact (hf a).same t (hx.keeps.returned hr hs)
    · exact .inr rfl
    · exact .inr rfl

theorem cursor_bind {f : Cursor ω → Action ω σ α}
    (hf : ∀ d, d.Tellable source → (f d).Agrees c off source E) :
    (cursor >>= f).Agrees c off source E :=
  ⟨.cursor_bind fun d hd => (hf d hd).keeps, fun s hs => (hf s.cursor hs).same s hs⟩

theorem save_bind {f : Mark ω → Action ω σ α}
    (hf : ∀ d : Cursor ω, d.Tellable source → (f d.toMark).Agrees c off source E) :
    (save >>= f).Agrees c off source E :=
  ⟨.save_bind fun d hd => (hf d hd).keeps, fun s hs => (hf s.cursor hs).same s hs⟩

/-- What goes on from the context must make the same of the other one. -/
theorem context_bind {f : Context ω → Action ω σ α} (hf : f c = f (c.checking off))
    (h : (f c).Agrees c off source E) : (context >>= f).Agrees c off source E := by
  refine ⟨h.keeps, fun s hs => ?_⟩
  change (∃ e t, f c c s = (.raised e, t) ∧ E e) ∨ f c c s = f (c.checking off) (c.checking off) s
  rw [← hf]
  exact h.same s hs

theorem catching {p : Value ω → Bool} (hx : x.Agrees c off source fun _ => False) :
    (catching p x).Agrees c off source E := by
  refine ⟨.catching hx.keeps, fun s hs => .inr ?_⟩
  rw [Action.catching, Action.catching, hx.eq_of_never hs]

theorem ifSucceeded {res : Outcome ω} {y : Action ω σ α} (hx : x.Agrees c off source E)
    (hy : y.Agrees c off source E) :
    Agrees c off source E (do if ← res.succeeded then x else y) := by
  refine .bind .ask fun b => ?_
  cases b
  · exact hy
  · exact hx

end Agrees

end Action

/-- The exceptions of the check: the message tells the place. -/
def Standstill (e : Value ω) : Prop := ∃ said, e = (Fault.notAdvancing said).exception

/-- The functions of the host program stay in the input and do not depend on whether progress is checked.
Its parsing functions, and those that make parsers, may be stopped by the check in a parser that they run. -/
structure Callbacks.Heedless (c : Context ω) (off : Value ω) (cb : Callbacks ω σ) : Prop where
  call : ∀ source f v, (cb.call f v).Agrees c off source fun _ => False
  step : ∀ source f, (cb.step f).Agrees c off source Standstill
  force : ∀ source f, (cb.force f).Agrees c off source Standstill
  resume : ∀ source p, (cb.resume p).Agrees c off source Standstill

variable {cb : Callbacks ω σ}

open ParserAlgebra.Action

theorem Conversion.agrees_coerce (hcb : cb.Heedless c off) {e : Value ω} {d : Declared ω} :
    (coerce cb e d).Agrees c off source Standstill := by
  have happly (conv : Conversion ω) : (apply cb d e conv).Agrees c off source Standstill := by
    rcases conv with _ | f
    · rcases d with t | v
      · exact .ask
      · exact .fault _
    · exact (hcb.call source f e).anywhere
  unfold coerce
  split
  · exact .pure e
  · split
    · exact .pure e
    · refine .context_bind rfl ?_
      split
      · exact happly _
      · exact .bind .note fun _ => .fault _
    · refine .context_bind rfl (.bind .ask fun conv? => ?_)
      split
      · exact happly _
      · exact .fault _
    · exact .fault _

namespace Parser

section Pieces

variable (hcb : cb.Heedless c off)

include hcb

theorem agrees_retarget {name : String} {from' target : Declared ω} {res : Outcome ω} :
    (retarget cb name from' target res).Agrees c off source Standstill := by
  refine .bind .ask fun k => ?_
  split
  · exact .bind .ask fun e => .bind .ask fun said => .fault _
  · exact .bind .ask fun e => .bind (Conversion.agrees_coerce hcb) fun e' =>
      .bind .ask fun pos => .pure _

theorem agrees_refined {target : Declared ω} {v : Value ω} :
    (refined cb target v).Agrees c off source Standstill := by
  unfold refined
  split
  · refine .bind .ask fun e => .bind (Conversion.agrees_coerce hcb) fun e' =>
      .bind .ask fun pos => ?_
    split
    · exact .save_bind fun d hd => .pure _
    · exact .pure _
  · split <;> exact .pure _

theorem agrees_apply {f : Mapping ω} {v : Value ω} :
    (f.apply cb v).Agrees c off source Standstill := by
  unfold Mapping.apply
  split
  · exact .pure _
  · exact .pure _
  · exact .pure _
  · exact .pure _
  · exact (hcb.call _ _ _).anywhere
  · exact .pure _

end Pieces

section Steps

variable {E : Value ω → Prop}

theorem agrees_normalise {name : String} {v : Value ω} :
    (normalise name v : Action ω σ (Outcome ω)).Agrees c off source E := by
  unfold normalise
  split
  · refine .bind .ask fun pos => ?_
    split
    · exact .bind .ask fun e => .save_bind fun d hd => .pure _
    · exact .pure _
  · split
    · exact .pure _
    · exact .bind .ask fun said => .fault _

theorem agrees_skipRun {p : Char → Bool} :
    (skipRun p : Action ω σ Nat).Agrees c off source E :=
  .of_eq (keeps_skipRun Cursor.closed_tellable) fun s => by
    rw [skipRun_apply, skipRun_apply]

theorem agrees_runTrace {label : String} :
    (runTrace label : Action ω σ Unit).Agrees c off source E := by
  unfold runTrace
  refine .bind .writes fun loud => ?_
  split
  · exact .cursor_bind fun d hd => .context_bind rfl (.bind .ask fun piece => .log)
  · exact .pure _

theorem agrees_logShown {ch : Level.Channel} {said : String} {v : Value ω} :
    (logShown ch said v : Action ω σ Unit).Agrees c off source E := .note

end Steps

section Loops

variable (hon : c.settings.checksProgress = .ok true) {attempt item sep : Action ω σ (Outcome ω)}

include hon

/-- The only step that looks at the setting. -/
theorem agrees_checkProgress {ch : Level.Channel} {message : String} {d : Cursor ω}
    (hd : d.Tellable source) :
    (checkProgress ch message d.toMark : Action ω σ Unit).Agrees c off source Standstill := by
  refine ⟨keeps_checkProgress, fun s _ => ?_⟩
  rcases hm : s.cursor.toMark.equal d.toMark with f | _ | _
  · exact .inr (by simp [checkProgress, bind_apply, hm])
  · exact .inr (by rw [checkProgress_of_moved hm, checkProgress_of_moved hm])
  · obtain ⟨e, t, hraised, htells⟩ := checkProgress_of_still hon hm
    obtain ⟨said, hsaid⟩ := hd.told
    exact .inl ⟨e, t, hraised, said, htells said hsaid⟩

theorem agrees_looped {ch : Level.Channel} {message : String}
    (hx : attempt.Agrees c off source Standstill) : ∀ {n : Nat} {done : List (Value ω)},
      (looped ch message attempt n done).Agrees c off source Standstill
  | 0, _ => .exhausted
  | n + 1, done => by
    rw [looped]
    refine .save_bind fun d hd => .bind hx fun res => .ifSucceeded ?_ ?_
    · exact .bind (agrees_checkProgress hon hd) fun _ => .bind .ask fun v => agrees_looped hx
    · exact .bind (.rewindTo hd) fun _ => .pure _

theorem agrees_runSepBy1 (hi : item.Agrees c off source Standstill)
    (hs : sep.Agrees c off source Standstill) {name : String} :
    (runSepBy1 cb name item sep).Agrees c off source Standstill := by
  refine .bind hi fun res => .ifSucceeded (.bind .ask fun v => ?_) (.pure res)
  rw [separated_eq_looped]
  have hround : (pairing item sep).Agrees c off source Standstill :=
    .bind hs fun res => .ifSucceeded hi (.pure res)
  exact .bind (agrees_looped hon hround) fun vs => .pure _

end Loops

/-- Every parser is stopped by the check or not concerned by it. -/
theorem agrees_run (hon : c.settings.checksProgress = .ok true) (hcb : cb.Heedless c off)
    (p : Parser ω) : (p.run cb).Agrees c off source Standstill := by
  induction p with
  | function name d step => exact .bind (hcb.step _ _) fun v => agrees_normalise
  | nextChar =>
    refine .cursor_bind fun d hd => ?_
    split
    · exact .pure _
    · next hend =>
      exact .bind (.setCursor (Cursor.closed_tellable.onTo hd (Nat.le_succ _)
        (Cursor.next_within hend))) fun _ => .pure _
  | word =>
    refine .cursor_bind fun d hd => .bind agrees_skipRun fun n => ?_
    split <;> exact .pure _
  | whitespace => exact .bind agrees_skipRun fun n => .pure _
  | eof =>
    refine .cursor_bind fun d hd => ?_
    split
    · exact .pure _
    · exact .context_bind rfl (.bind .ask fun found => .pure _)
  | take literal =>
    refine .cursor_bind fun d hd => ?_
    dsimp only
    split
    · next hstart =>
      exact .bind (.setCursor (Cursor.closed_tellable.onTo hd (Nat.le_add_right _ _)
        (Cursor.literal_within (hd.same ▸ hd.within) hstart))) fun _ => .pure _
    · exact .pure _
  | pure v => exact .pure _
  | fail e => exact .save_bind fun d hd => .pure _
  | seq p q ihp ihq =>
    refine .bind ihp fun a => .ifSucceeded ?_ (agrees_retarget hcb)
    refine .bind ihq fun b => .ifSucceeded ?_ (agrees_retarget hcb)
    exact .bind .ask fun v => .bind .ask fun w => .pure _
  | bind p next ih =>
    refine .bind ih fun a => .ifSucceeded ?_ (agrees_retarget hcb)
    refine .bind .ask fun v => .bind (hcb.call _ next v).anywhere fun w => .bind .ask fun q => ?_
    exact .bind (hcb.resume _ q) fun out => .ifSucceeded (.pure _) (agrees_retarget hcb)
  | map p f ih =>
    exact .bind ih fun a => .ifSucceeded (.bind .ask fun v => .bind (agrees_apply hcb) fun w =>
      .pure _) (.pure _)
  | refine p f err ih =>
    refine .bind ih fun a => .ifSucceeded ?_ (agrees_retarget hcb)
    -- Whatever the function raises may be caught here, so it must not be the exception of the check.
    refine .bind (.catching (.bind .ask fun v => hcb.call _ f v)) fun r => ?_
    rcases r with e | w
    · exact .bind (Conversion.agrees_coerce hcb) fun e' => .save_bind fun d hd => .pure _
    · exact agrees_refined hcb
  | convert p target ih => exact .bind ih fun a => .ifSucceeded (.pure _) (agrees_retarget hcb)
  | mapErr p f err ih =>
    refine .bind ih fun a => .ifSucceeded (.pure _) ?_
    exact .bind .ask fun e => .bind (hcb.call _ f e).anywhere fun e' => .bind .ask fun pos => .pure _
  | alt p q ihp ihq =>
    refine .save_bind fun d hd => .bind ihp fun a => .ifSucceeded (.pure _) ?_
    refine .bind (.rewindTo hd) fun _ => .bind ihq fun b => .ifSucceeded (.pure _) ?_
    exact .bind (.rewindTo hd) fun _ => agrees_retarget hcb
  | rewind p ih =>
    exact .save_bind fun d hd => .bind ih fun a => .ifSucceeded (.pure _)
      (.bind (.rewindTo hd) fun _ => .pure _)
  | option default p ih =>
    exact .save_bind fun d hd => .bind ih fun a => .ifSucceeded (.pure _)
      (.bind (.rewindTo hd) fun _ => .pure _)
  | many p ih =>
    rw [run, repeated_eq_looped]
    exact .bind (agrees_looped hon ih) fun vs => .pure _
  | sepBy1 p q ihp ihq => exact agrees_runSepBy1 hon ihp ihq
  | sepBy p q ihp ihq =>
    exact .save_bind fun d hd => .bind (agrees_runSepBy1 hon ihp ihq) fun a =>
      .ifSucceeded (.pure _) (.bind (.rewindTo hd) fun _ => .pure _)
  | later d factory => exact .bind (hcb.force _ factory) fun q => hcb.resume _ q
  | trace label => exact .bind agrees_runTrace fun _ => .pure _
  | traced label p ih =>
    refine .bind agrees_runTrace fun _ => .save_bind fun d hd => .bind ih fun a => ?_
    refine .ifSucceeded ?_ ?_
    · exact .bind .ask fun v => .bind agrees_logShown fun _ => .pure _
    · exact .bind (.rewindTo hd) fun _ => .bind agrees_runTrace fun _ =>
        .bind .ask fun e => .bind agrees_logShown fun _ => .pure _

end Parser

/-! ## Whole runs -/

/-- The functions of the host program do not depend on whether progress is checked, but for the parsers that
its parsing functions, and those that make parsers, run. -/
structure Host.Heedless (c : Context ω) (off : Value ω) (h : Host ω σ) : Prop where
  call : ∀ {run : Runner ω σ}, (∀ source p, (run p).Agrees c off source Standstill) →
    ∀ source f v, (h.call run f v).Agrees c off source fun _ => False
  step : ∀ {run : Runner ω σ}, (∀ source p, (run p).Agrees c off source Standstill) →
    ∀ source f, (h.step run f).Agrees c off source Standstill
  force : ∀ {run : Runner ω σ}, (∀ source p, (run p).Agrees c off source Standstill) →
    ∀ source f, (h.force run f).Agrees c off source Standstill

variable {h : Host ω σ}

theorem Host.Heedless.tied (hh : h.Heedless c off) {run : Runner ω σ}
    (hrun : ∀ source p, (run p).Agrees c off source Standstill) {rounds : Nat} :
    (h.tied run rounds).Heedless c off :=
  ⟨hh.call hrun, hh.step hrun, hh.force hrun, hrun⟩

theorem Host.Heedless.callbacks (hon : c.settings.checksProgress = .ok true)
    (hh : h.Heedless c off) (rounds : Nat) : ∀ depth, (h.callbacks rounds depth).Heedless c off
  | 0 => hh.tied fun _ _ => .exhausted
  | depth + 1 => hh.tied fun _ p => p.agrees_run hon (hh.callbacks hon rounds depth)

namespace Parser

/-- From the state `s` the run comes to the answer and leaves `t`, if it is given rounds and depth
enough. -/
def ComesTo (h : Host ω σ) (c : Context ω) (p : Parser ω) (s : State ω σ)
    (answer : Answer ω (Outcome ω)) (t : State ω σ) : Prop :=
  answer ≠ .exhausted ∧ ∃ rounds depth, p.run (h.callbacks rounds depth) c s = (answer, t)

end Parser

namespace Assignment

variable {c : Context Function} {off : Value Function}

/-- Reading an assignment runs two parsers, and looks at no setting. -/
theorem host_heedless (hc : c.registry = registry) : host.Heedless c off := by
  have hname {source : List Char} : (name : Act _).Agrees c off source Standstill := by
    refine .of_eq (.of_cursor_eq fun s => ?_) fun s => ?_
    · rw [name_returned hc]
    · rw [name_returned hc, name_returned (c := c.checking off) hc]
  have hvalue {source : List Char} : (value : Act _).Agrees c off source Standstill := by
    refine .of_eq (.of_cursor_eq fun s => ?_) fun s => ?_
    · rw [value_returned hc]
    · rw [value_returned hc, value_returned (c := c.checking off) hc]
  refine ⟨fun _ source f v => ?_, fun hrun source f => ?_, fun _ source f => .pure _⟩
  · cases f with
    | number => exact .bind .ask fun n => .pure _
    | assignment => exact .pure _
  · cases f with
    | number => exact .pure _
    | assignment =>
      refine .bind (.bind hname fun p => .bind (hrun source p) fun n => .ifSucceeded ?_ (.pure _))
        fun res => .pure _
      refine .bind hvalue fun q => .bind (hrun source q) fun v => .ifSucceeded ?_ (.pure _)
      exact .bind .ask fun n => .bind .ask fun w => .pure _

end Assignment

end ParserAlgebra
