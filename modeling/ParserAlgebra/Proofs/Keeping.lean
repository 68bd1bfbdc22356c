import ParserAlgebra.Proofs.Repetition

/-!
# What a run keeps true of the cursor

Parsers move the cursor forward in its input, and back to where they have saved it. What survives
such moves (`Cursor.Closed`) is true after every run if it was true before, provided that the
functions of the host program keep it too (`Parser.keeps`). This holds however the run ends: a value
that is returned, an exception that is raised, or steps that run out.
-/

namespace ParserAlgebra

variable {ω σ α β : Type}

/-- What stays true when the cursor moves forward in the input, and when it goes back to where it is
true. -/
structure Cursor.Closed (K : Cursor ω → Prop) : Prop where
  within : ∀ {d}, K d → d.pos ≤ d.source.length
  onTo : ∀ {d n}, K d → d.pos ≤ n → n ≤ d.source.length → K (d.onTo n)
  backTo : ∀ {d e}, K d → K e → K (d.backTo e.toMark)

namespace Cursor

variable {d : Cursor ω}

theorem takeWhile_within (hd : d.pos ≤ d.source.length) (p : Char → Bool) :
    d.pos + (d.rest.takeWhile p).length ≤ d.source.length := by
  have hle := (List.takeWhile_prefix (l := d.rest) p).length_le
  rw [rest, List.length_drop] at hle
  rw [rest]
  omega

theorem literal_within (hd : d.pos ≤ d.source.length) {literal : String}
    (h : d.startsWith literal.toList = true) : d.pos + literal.length ≤ d.source.length := by
  have hle := (List.isPrefixOf_iff_prefix.1 h).length_le
  rw [rest, List.length_drop, String.length_toList] at hle
  omega

theorem next_within (h : ¬ d.atEnd = true) : d.pos + 1 ≤ d.source.length :=
  Nat.succ_le_of_lt (by simpa [atEnd] using h)

end Cursor

variable {K : Cursor ω → Prop} {c : Context ω}

namespace Action

/-- However the action ends, `K` is true of the cursor if it was before. -/
def Keeps (K : Cursor ω → Prop) (c : Context ω) (x : Action ω σ α) : Prop :=
  ∀ s, K s.cursor → K (x c s).2.cursor

namespace Keeps

variable {x : Action ω σ α}

theorem returned (hx : x.Keeps K c) {s t : State ω σ} {a : α} (h : x c s = (.returned a, t))
    (hs : K s.cursor) : K t.cursor := by
  have ht := hx s hs
  rwa [h] at ht

theorem of_cursor_eq (h : ∀ s, (x c s).2.cursor = s.cursor) : x.Keeps K c :=
  fun s hs => (h s).symm ▸ hs

protected theorem pure (a : α) : (Pure.pure a : Action ω σ α).Keeps K c := fun _ hs => hs

protected theorem bind {f : α → Action ω σ β} (hx : x.Keeps K c) (hf : ∀ a, (f a).Keeps K c) :
    (x >>= f).Keeps K c := by
  intro s hs
  have hu := hx s hs
  rw [bind_apply]
  generalize x c s = r at hu ⊢
  obtain ⟨a | e | _, u⟩ := r
  · exact hf a u hu
  · exact hu
  · exact hu

protected theorem fault (f : Fault) : (fault f : Action ω σ α).Keeps K c := fun _ hs => hs

protected theorem exhausted : (exhausted : Action ω σ α).Keeps K c := fun _ hs => hs

theorem ask {q : Except Fault α} : (liftM q : Action ω σ α).Keeps K c := by
  rcases q with f | a
  · exact .fault f
  · exact .pure a

theorem context : (context : Action ω σ (Context ω)).Keeps K c := fun _ hs => hs

theorem writes {l : Level} : (writes l : Action ω σ Bool).Keeps K c := fun _ hs => hs

theorem log {l : Level} {ch : Level.Channel} {m : String} :
    (log l ch m : Action ω σ Unit).Keeps K c := by
  refine of_cursor_eq fun s => ?_
  simp only [Action.log]
  split <;> rfl

theorem note {l : Level} {ch : Level.Channel} {m : Except Fault String} :
    (note l ch m : Action ω σ Unit).Keeps K c := by
  rcases m with f | m
  · rw [note_error]
    exact .pure ()
  · rw [note_ok]
    exact .log

theorem cursor_bind {f : Cursor ω → Action ω σ α} (hf : ∀ d, K d → (f d).Keeps K c) :
    (cursor >>= f).Keeps K c := fun s hs => hf s.cursor hs s hs

theorem save_bind {f : Mark ω → Action ω σ α} (hf : ∀ d, K d → (f d.toMark).Keeps K c) :
    (save >>= f).Keeps K c := fun s hs => hf s.cursor hs s hs

theorem setCursor {d : Cursor ω} (hd : K d) : (setCursor d : Action ω σ Unit).Keeps K c :=
  fun _ _ => hd

theorem rewindTo {d : Cursor ω} (hK : Cursor.Closed K) (hd : K d) :
    (rewindTo d.toMark : Action ω σ Unit).Keeps K c := fun _ hs => hK.backTo hs hd

theorem catching {p : Value ω → Bool} (hx : x.Keeps K c) : (catching p x).Keeps K c := by
  intro s hs
  have hu := hx s hs
  unfold Action.catching
  generalize x c s = r at hu ⊢
  obtain ⟨a | e | _, u⟩ := r <;> exact hu

/-- What is done on another input does not move the cursor. -/
theorem withInput {input : Cursor ω} : (withInput input x).Keeps K c := fun _ hs => hs

theorem ifSucceeded [HostObject ω] {res : Outcome ω} {y : Action ω σ α} (hx : x.Keeps K c)
    (hy : y.Keeps K c) : Keeps K c (do if ← res.succeeded then x else y) := by
  refine .bind .ask fun b => ?_
  cases b
  · exact hy
  · exact hx

end Keeps

end Action

variable [HostObject ω] {cb : Callbacks ω σ}

/-- The host program keeps `K` true of the cursor. -/
structure Callbacks.Keeps (K : Cursor ω → Prop) (c : Context ω) (cb : Callbacks ω σ) : Prop where
  call : ∀ f v, (cb.call f v).Keeps K c
  step : ∀ f, (cb.step f).Keeps K c
  force : ∀ f, (cb.force f).Keeps K c
  resume : ∀ p, (cb.resume p).Keeps K c

theorem Conversion.keeps_coerce (hcb : cb.Keeps K c) {e : Value ω} {d : Declared ω} :
    (coerce cb e d).Keeps K c := by
  have happly (conv : Conversion ω) : (apply cb d e conv).Keeps K c := by
    rcases conv with _ | f
    · rcases d with t | v
      · exact .ask
      · exact .fault _
    · exact hcb.call f e
  unfold coerce
  split
  · exact .pure e
  · split
    · exact .pure e
    · refine .bind .context fun _ => ?_
      split
      · exact happly _
      · exact .bind .note fun _ => .fault _
    · refine .bind .context fun _ => .bind .ask fun conv? => ?_
      split
      · exact happly _
      · exact .fault _
    · exact .fault _

namespace Parser

open ParserAlgebra.Action

theorem keeps_retarget (hcb : cb.Keeps K c) {name : String} {source target : Declared ω}
    {res : Outcome ω} : (retarget cb name source target res).Keeps K c := by
  refine .bind .ask fun k => ?_
  split
  · exact .bind .ask fun e => .bind .ask fun said => .fault _
  · exact .bind .ask fun e => .bind (Conversion.keeps_coerce hcb) fun e' =>
      .bind .ask fun pos => .pure _

theorem keeps_normalise {name : String} {v : Value ω} :
    (normalise name v : Action ω σ (Outcome ω)).Keeps K c := by
  unfold normalise
  split
  · refine .bind .ask fun pos => ?_
    split
    · exact .bind .ask fun e => .save_bind fun d hd => .pure _
    · exact .pure _
  · split
    · exact .pure _
    · exact .bind .ask fun said => .fault _

theorem keeps_refined (hcb : cb.Keeps K c) {target : Declared ω} {v : Value ω} :
    (refined cb target v).Keeps K c := by
  unfold refined
  split
  · refine .bind .ask fun e => .bind (Conversion.keeps_coerce hcb) fun e' =>
      .bind .ask fun pos => ?_
    split
    · exact .save_bind fun d hd => .pure _
    · exact .pure _
  · split <;> exact .pure _

omit [HostObject ω] in
theorem keeps_skipRun (hK : Cursor.Closed K) {p : Char → Bool} :
    (skipRun p : Action ω σ Nat).Keeps K c := by
  unfold skipRun
  refine .cursor_bind fun d hd => ?_
  have hstop : K (d.onTo (d.pos + (d.rest.takeWhile p).length)) :=
    hK.onTo hd (Nat.le_add_right _ _) (Cursor.takeWhile_within (hK.within hd) p)
  dsimp only
  split
  · exact .bind (.setCursor hstop) fun _ => .pure _
  · exact .pure _

theorem keeps_runTrace {label : String} : (runTrace label : Action ω σ Unit).Keeps K c := by
  unfold runTrace
  refine .bind .writes fun loud => ?_
  split
  · exact .cursor_bind fun d hd => .bind .context fun _ => .bind .ask fun piece => .log
  · exact .pure _

theorem keeps_logShown {ch : Level.Channel} {said : String} {v : Value ω} :
    (logShown ch said v : Action ω σ Unit).Keeps K c := .note

theorem keeps_checkProgress {ch : Level.Channel} {message : String} {m : Mark ω} :
    (checkProgress ch message m : Action ω σ Unit).Keeps K c := by
  unfold checkProgress
  refine .save_bind fun d hd => .bind .ask fun still => ?_
  split
  · refine .bind .context fun _ => .bind .ask fun on => ?_
    split
    · exact .bind .log fun _ => .bind .ask fun said => .fault _
    · exact .pure _
  · exact .pure _

theorem keeps_looped (hK : Cursor.Closed K) {attempt : Action ω σ (Outcome ω)}
    (hx : attempt.Keeps K c) {ch : Level.Channel} {message : String} :
    ∀ {n : Nat} {done : List (Value ω)}, (looped ch message attempt n done).Keeps K c
  | 0, _ => .exhausted
  | n + 1, done => by
    rw [looped]
    refine .save_bind fun d hd => .bind hx fun res => .ifSucceeded ?_ ?_
    · exact .bind keeps_checkProgress fun _ => .bind .ask fun v =>
        keeps_looped hK hx
    · exact .bind (.rewindTo hK hd) fun _ => .pure _

theorem keeps_pairing {item sep : Action ω σ (Outcome ω)} (hi : item.Keeps K c)
    (hs : sep.Keeps K c) : (pairing item sep).Keeps K c :=
  .bind hs fun res => .ifSucceeded hi (.pure res)

theorem keeps_runSepBy1 (hK : Cursor.Closed K) {item sep : Action ω σ (Outcome ω)}
    (hi : item.Keeps K c) (hs : sep.Keeps K c) {name : String} :
    (runSepBy1 cb name item sep).Keeps K c := by
  unfold runSepBy1
  refine .bind hi fun res => .ifSucceeded ?_ (.pure res)
  refine .bind .ask fun v => ?_
  rw [separated_eq_looped]
  exact .bind (keeps_looped hK (keeps_pairing hi hs)) fun vs => .pure _

omit [HostObject ω] in
theorem keeps_apply (hcb : cb.Keeps K c) {f : Mapping ω} {v : Value ω} :
    (f.apply cb v).Keeps K c := by
  unfold Mapping.apply
  split
  · exact .pure _
  · exact .pure _
  · exact .pure _
  · exact .pure _
  · exact hcb.call _ _
  · exact .pure _

/-- A run keeps what the host program keeps, however it ends. -/
theorem keeps (hK : Cursor.Closed K) (hcb : cb.Keeps K c) (p : Parser ω) :
    (p.run cb).Keeps K c := by
  induction p with
  | function name d step => exact .bind (hcb.step step) fun v => keeps_normalise
  | nextChar =>
    refine .cursor_bind fun d hd => ?_
    split
    · exact .pure _
    · next hend =>
      have hstop : K (d.onTo (d.pos + 1)) := hK.onTo hd (Nat.le_succ _) (Cursor.next_within hend)
      exact .bind (.setCursor hstop) fun _ => .pure _
  | word =>
    refine .cursor_bind fun d hd => .bind (keeps_skipRun hK) fun n => ?_
    split <;> exact .pure _
  | whitespace => exact .bind (keeps_skipRun hK) fun n => .pure _
  | eof =>
    refine .cursor_bind fun d hd => ?_
    split
    · exact .pure _
    · exact .bind .context fun _ => .bind .ask fun found => .pure _
  | take literal =>
    refine .cursor_bind fun d hd => ?_
    dsimp only
    split
    · next hstart =>
      have hstop : K (d.onTo (d.pos + literal.length)) :=
        hK.onTo hd (Nat.le_add_right _ _) (Cursor.literal_within (hK.within hd) hstart)
      exact .bind (.setCursor hstop) fun _ => .pure _
    · exact .pure _
  | pure v => exact .pure _
  | fail e => exact .save_bind fun d hd => .pure _
  | seq p q ihp ihq =>
    refine .bind ihp fun a => .ifSucceeded ?_ (keeps_retarget hcb)
    refine .bind ihq fun b => .ifSucceeded ?_ (keeps_retarget hcb)
    exact .bind .ask fun v => .bind .ask fun w => .pure _
  | bind p next ih =>
    refine .bind ih fun a => .ifSucceeded ?_ (keeps_retarget hcb)
    refine .bind .ask fun v => .bind (hcb.call next v) fun w => .bind .ask fun q => ?_
    exact .bind (hcb.resume q) fun out => .ifSucceeded (.pure _) (keeps_retarget hcb)
  | map p f ih =>
    exact .bind ih fun a => .ifSucceeded (.bind .ask fun v => .bind (keeps_apply hcb) fun w =>
      .pure _) (.pure _)
  | refine p f err ih =>
    refine .bind ih fun a => .ifSucceeded ?_ (keeps_retarget hcb)
    refine .bind (.catching (.bind .ask fun v => hcb.call f v)) fun r => ?_
    rcases r with e | w
    · exact .bind (Conversion.keeps_coerce hcb) fun e' => .save_bind fun d hd => .pure _
    · exact keeps_refined hcb
  | convert p target ih => exact .bind ih fun a => .ifSucceeded (.pure _) (keeps_retarget hcb)
  | mapErr p f err ih =>
    refine .bind ih fun a => .ifSucceeded (.pure _) ?_
    exact .bind .ask fun e => .bind (hcb.call f e) fun e' => .bind .ask fun pos => .pure _
  | alt p q ihp ihq =>
    refine .save_bind fun d hd => .bind ihp fun a => .ifSucceeded (.pure _) ?_
    refine .bind (.rewindTo hK hd) fun _ => .bind ihq fun b => .ifSucceeded (.pure _) ?_
    exact .bind (.rewindTo hK hd) fun _ => keeps_retarget hcb
  | rewind p ih =>
    exact .save_bind fun d hd => .bind ih fun a => .ifSucceeded (.pure _)
      (.bind (.rewindTo hK hd) fun _ => .pure _)
  | option default p ih =>
    exact .save_bind fun d hd => .bind ih fun a => .ifSucceeded (.pure _)
      (.bind (.rewindTo hK hd) fun _ => .pure _)
  | many p ih =>
    rw [run, repeated_eq_looped]
    exact .bind (keeps_looped hK ih) fun vs => .pure _
  | sepBy1 p q ihp ihq => exact keeps_runSepBy1 hK ihp ihq
  | sepBy p q ihp ihq =>
    exact .save_bind fun d hd => .bind (keeps_runSepBy1 hK ihp ihq) fun a =>
      .ifSucceeded (.pure _) (.bind (.rewindTo hK hd) fun _ => .pure _)
  | later d factory => exact .bind (hcb.force factory) fun q => hcb.resume q
  | trace label => exact .bind keeps_runTrace fun _ => .pure _
  | traced label p ih =>
    refine .bind keeps_runTrace fun _ => .save_bind fun d hd => .bind ih fun a => ?_
    refine .ifSucceeded ?_ ?_
    · exact .bind .ask fun v => .bind keeps_logShown fun _ => .pure _
    · exact .bind (.rewindTo hK hd) fun _ => .bind keeps_runTrace fun _ =>
        .bind .ask fun e => .bind keeps_logShown fun _ => .pure _

end Parser

end ParserAlgebra
