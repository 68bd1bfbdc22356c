import ParserAlgebra.Parser.Report
import ParserAlgebra.Proofs.AssignmentParts
import ParserAlgebra.Proofs.Following

/-!
# Tracing

The erasure of a parser (`Parser.untraced`) backtracks where the parser traces, and does nothing where it
shows the input that is left. A trace asks the outcome of a parser for what is said in the log, at every
level, so an outcome that has no answer raises an exception there (`Outcome.Untold`), and this is the only
thing that tracing changes: the parser does what its erasure does unless such an outcome occurs in it
(`Parser.tracing_erased`). This is so for each combinator, and then for a whole run by induction on where the
tracing was taken out (`Parser.Erases`).

The functions of the host program may make parsers with or without tracing themselves (`Host.Erases`).
-/

namespace ParserAlgebra

open ParserAlgebra.Action

variable {ω σ α β : Type} [HostObject ω] {c : Context ω} {K : Cursor ω → Prop}
  {E : Value ω → Prop} {T : Parser ω → Prop}

namespace Outcome

/-- What a trace says of an outcome: the value of a success, the error of a failure. -/
def told (a : Outcome ω) : Bool → Except Fault (Value ω)
  | true => a.value
  | false => a.error

/-- What a trace would say of the outcome cannot be told, but raises the fault. It is always asked for,
also where the trace is not written. -/
def Untold (a : Outcome ω) (f : Fault) : Prop := ∃ b, a.succeeded = .ok b ∧ a.told b = .error f

theorem not_untold_ok {v : Value ω} {f : Fault} : ¬ (ok v).Untold f := by
  simp [Untold, told]

theorem not_untold_err {e pos : Value ω} {f : Fault} : ¬ (err e pos).Untold f := by
  simp [Untold, told]

end Outcome

namespace Parser

/-- The parser without tracing. -/
def untraced : Parser ω → Parser ω
  | seq p q => seq p.untraced q.untraced
  | bind p next => bind p.untraced next
  | map p f => map p.untraced f
  | refine p f err => refine p.untraced f err
  | convert p target => convert p.untraced target
  | mapErr p f err => mapErr p.untraced f err
  | alt p q => alt p.untraced q.untraced
  | rewind p => rewind p.untraced
  | option default p => option default p.untraced
  | many p => many p.untraced
  | sepBy1 p s => sepBy1 p.untraced s.untraced
  | sepBy p s => sepBy p.untraced s.untraced
  | trace _ => pure .none
  | traced _ p => rewind p.untraced
  | p => p

/-- The parsers of which the outcome is traced. -/
def tracedParts : Parser ω → List (Parser ω)
  | seq p q | alt p q | sepBy1 p q | sepBy p q => p.tracedParts ++ q.tracedParts
  | bind p _ | map p _ | refine p _ _ | convert p _ | mapErr p _ _ | rewind p | option _ p | many p =>
    p.tracedParts
  | traced _ p => p :: p.tracedParts
  | _ => []

/-- The second parser is the first one with tracing taken out in some places, all of them around parsers
that `T` is true of. -/
inductive Erases (T : Parser ω → Prop) : Parser ω → Parser ω → Prop
  | function (name : String) (d : Declared ω) (step : ω) :
      Erases T (.function name d step) (.function name d step)
  | nextChar : Erases T .nextChar .nextChar
  | word : Erases T .word .word
  | whitespace : Erases T .whitespace .whitespace
  | eof : Erases T .eof .eof
  | take (literal : String) : Erases T (.take literal) (.take literal)
  | pure (v : Value ω) : Erases T (.pure v) (.pure v)
  | fail (e : Value ω) : Erases T (.fail e) (.fail e)
  | seq {p p' q q' : Parser ω} (hp : Erases T p p') (hq : Erases T q q') :
      Erases T (.seq p q) (.seq p' q')
  | bind {p p' : Parser ω} (next : ω) (hp : Erases T p p') : Erases T (.bind p next) (.bind p' next)
  | map {p p' : Parser ω} (f : Mapping ω) (hp : Erases T p p') : Erases T (.map p f) (.map p' f)
  | refine {p p' : Parser ω} (f : ω) (err : Declared ω) (hp : Erases T p p') :
      Erases T (.refine p f err) (.refine p' f err)
  | convert {p p' : Parser ω} (target : Declared ω) (hp : Erases T p p') :
      Erases T (.convert p target) (.convert p' target)
  | mapErr {p p' : Parser ω} (f : ω) (err : Declared ω) (hp : Erases T p p') :
      Erases T (.mapErr p f err) (.mapErr p' f err)
  | alt {p p' q q' : Parser ω} (hp : Erases T p p') (hq : Erases T q q') :
      Erases T (.alt p q) (.alt p' q')
  | rewind {p p' : Parser ω} (hp : Erases T p p') : Erases T (.rewind p) (.rewind p')
  | option {p p' : Parser ω} (default : Value ω) (hp : Erases T p p') :
      Erases T (.option default p) (.option default p')
  | many {p p' : Parser ω} (hp : Erases T p p') : Erases T (.many p) (.many p')
  | sepBy1 {p p' q q' : Parser ω} (hp : Erases T p p') (hq : Erases T q q') :
      Erases T (.sepBy1 p q) (.sepBy1 p' q')
  | sepBy {p p' q q' : Parser ω} (hp : Erases T p p') (hq : Erases T q q') :
      Erases T (.sepBy p q) (.sepBy p' q')
  | later (d : Declared ω) (factory : ω) : Erases T (.later d factory) (.later d factory)
  | trace (label : String) : Erases T (.trace label) (.trace label)
  | traced {p p' : Parser ω} (label : String) (hp : Erases T p p') :
      Erases T (.traced label p) (.traced label p')
  | traceErased (label : String) : Erases T (.trace label) (.pure .none)
  | tracedErased {p p' : Parser ω} (label : String) (hT : T p) (hp : Erases T p p') :
      Erases T (.traced label p) (.rewind p')

namespace Erases

variable {p q : Parser ω}

omit [HostObject ω] in
theorem refl (T : Parser ω → Prop) (p : Parser ω) : Erases T p p := by
  -- The constructors of the relation that keep tracing come first.
  induction p <;> constructor <;> assumption

omit [HostObject ω] in
theorem untraced (p : Parser ω) (hT : ∀ q ∈ p.tracedParts, T q) : Erases T p p.untraced := by
  induction p with
  | function | nextChar | word | whitespace | eof | take | pure | fail | later => constructor
  | bind _ _ ih | map _ _ ih | refine _ _ _ ih | convert _ _ ih | mapErr _ _ _ ih | rewind _ ih
  | option _ _ ih | many _ ih =>
    constructor
    exact ih hT
  | seq _ _ ihp ihq | alt _ _ ihp ihq | sepBy1 _ _ ihp ihq | sepBy _ _ ihp ihq =>
    have ⟨hp, hq⟩ := List.forall_mem_append.1 hT
    constructor
    · exact ihp hp
    · exact ihq hq
  | trace label => exact .traceErased label
  | traced label p ih =>
    have ⟨hp, hparts⟩ := List.forall_mem_cons.1 hT
    exact .tracedErased label hp (ih hparts)

/-- Tracing declares no error of its own. -/
theorem declares_eq (h : Erases T p q) : p.declares = q.declares := by
  induction h <;> simp_all [declares]

end Erases

end Parser

/-- Beside what is no parser there may be a parser with tracing taken out. -/
inductive Operand.Erases (T : Parser ω → Prop) : Operand ω → Operand ω → Prop
  | parser {p q : Parser ω} (h : p.Erases T q) : Erases T (.parser p) (.parser q)
  | same (o : Operand ω) : Erases T o o

/-- The ways to run parsers do the same up to tracing. -/
def Runner.Erases (c : Context ω) (K : Cursor ω → Prop) (E : Value ω → Prop) (T : Parser ω → Prop)
    (run run' : Runner ω σ) : Prop :=
  ∀ p q, p.Erases T q → Follows c K E Eq (run p) (run' q)

/-- The two do the same to values; their parsing functions follow each other; the parsers that they make are
the same up to tracing. Outcomes of parsers that `T` is true of can be told, or raise one of the
exceptions `E`. -/
structure Callbacks.Erases (c : Context ω) (K : Cursor ω → Prop) (E : Value ω → Prop)
    (T : Parser ω → Prop) (cb cb' : Callbacks ω σ) : Prop where
  call : ∀ f v, Relates c id Eq (cb.call f v) (cb'.call f v)
  keeps : ∀ f v, (cb.call f v).Keeps K c
  step : ∀ f, Follows c K E Eq (cb.step f) (cb'.step f)
  force : ∀ f, Follows c K E (Parser.Erases T) (cb.force f) (cb'.force f)
  operand : ∀ o, (cb.operand o).Erases T (cb'.operand o)
  resume : Runner.Erases c K E T cb.resume cb'.resume
  rounds : cb.rounds = cb'.rounds
  tells : ∀ p, T p → ∀ s a t f, K s.cursor → p.run cb c s = (.returned a, t) → a.Untold f →
    E f.exception

theorem Operand.Erases.toParser {o o' : Operand ω} (h : o.Erases T o')
    (override : Option (Declared ω)) :
    Follows (σ := σ) c K E (Parser.Erases T) (liftM (o.toParser override))
      (liftM (o'.toParser override)) := by
  cases h with
  | parser h => exact .pure h
  | same =>
    rcases o.toParser override with f | p
    · exact .fault rfl
    · exact .pure (.refl T p)

omit [HostObject ω] in
theorem Operand.erases_ofValue {operand operand' : ω → Operand ω}
    (h : ∀ o, (operand o).Erases T (operand' o)) (v : Value ω) :
    (ofValue operand v).Erases T (ofValue operand' v) := by
  unfold ofValue
  split
  · exact h _
  · exact .same _
  · exact .same _

/-! ## Traces -/

theorem Preview.ahead_eq_ok {n : Int} (hn : c.settings.tracePreview.toInt? = some n)
    (d : Cursor ω) : ∃ piece, ahead c.settings d = .ok piece := by
  have hstop : d.further c.settings.tracePreview = .ok (d.pos + n) := by
    unfold Cursor.further
    rw [hn]
  unfold ahead
  rw [hstop]
  exact ⟨_, rfl⟩

/-- However many characters a trace is told to show. -/
theorem Parser.quiet_runTrace {n : Int} (hn : c.settings.tracePreview.toInt? = some n)
    (label : String) : (runTrace label : Action ω σ Unit).Quiet c := by
  intro s
  by_cases hl : c.threshold.rank ≤ Level.debug.rank
  · obtain ⟨piece, hpiece⟩ := Preview.ahead_eq_ok hn s.cursor
    obtain ⟨t, ht, hlog⟩ := log_returned (c := c) .debug .combinators _ s
    refine ⟨t, ht, ?_⟩
    simp only [runTrace, bind_apply, Action.writes, hl, decide_true, if_true, cursor_apply,
      context_apply, hpiece, monadLift_ok]
    exact hlog
  · exact ⟨s, .refl s, by simp [runTrace, bind_apply, Action.writes, hl]⟩

section Told

variable {a : Outcome ω} {b : Bool} (ha : a.succeeded = .ok b) (ch : Level.Channel) (said : String)

include ha

theorem Parser.told_raises {f : Fault} (hf : a.Untold f) (s : State ω σ) :
    (do logShown ch said (← a.told b); return a : Action ω σ (Outcome ω)) c s =
      (.raised f.exception, s) := by
  obtain ⟨b', hb', hv⟩ := hf
  cases ha.symm.trans hb'
  rw [hv]
  rfl

theorem Parser.told_returns (hf : ∀ f, ¬ a.Untold f) (s : State ω σ) :
    ∃ t, t.Alike id s ∧ (do logShown ch said (← a.told b); return a : Action ω σ (Outcome ω)) c s =
      (.returned a, t) := by
  rcases hv : a.told b with f | v
  · exact absurd ⟨b, ha, hv⟩ (hf f)
  obtain ⟨t, ht, hlog⟩ : ∃ t : State ω σ, t.Alike id s ∧ logShown ch said v c s = (.returned (), t) :=
    note_returned .debug ch _ s
  refine ⟨t, ht, ?_⟩
  simp only [monadLift_ok, bind_apply, hlog, pure_apply]

/-- What a trace says of an outcome is written to the log, or raises what cannot be told. -/
theorem Parser.follows_told (hE : ∀ f, a.Untold f → E f.exception) :
    Follows (σ := σ) c K E Eq (do logShown ch said (← a.told b); return a) (do return a) := by
  intro s t hst hs
  by_cases hf : ∃ f, a.Untold f
  · obtain ⟨f, hf⟩ := hf
    exact .inl ⟨_, s, told_raises ha ch said hf s, hE f hf⟩
  · obtain ⟨u, hu, hr⟩ := told_returns (c := c) ha ch said (not_exists.1 hf) s
    rw [hr]
    exact .inr ⟨.returned rfl, hu.trans hst, hu.cursor ▸ hs⟩

end Told

/-! ## The steps of a run -/

section Pieces

variable {cb cb' : Callbacks ω σ} (hcb : cb.Erases c K E T cb')

include hcb

theorem Callbacks.Erases.follows_call (f : ω) (v : Value ω) :
    Follows c K E Eq (cb.call f v) (cb'.call f v) := .of_relates (hcb.call f v) (hcb.keeps f v)

theorem Conversion.follows_coerce {e : Value ω} {d : Declared ω} :
    Follows c K E Eq (coerce cb e d) (coerce cb' e d) := by
  have happly (conv : Conversion ω) : Follows c K E Eq (apply cb d e conv) (apply cb' d e conv) := by
    rcases conv with _ | f
    · rcases d with t | v
      · exact .of_relates .ask .ask
      · exact .fault rfl
    · exact hcb.follows_call f e
  unfold coerce
  split
  · exact .pure rfl
  · split
    · exact .pure rfl
    · refine .after .context .context fun _ => ?_
      split
      · exact happly _
      · exact .after .note .note fun _ => .fault rfl
    · refine .after .context .context fun _ => .ask fun conv? _ => ?_
      split
      · exact happly _
      · exact .fault rfl
    · exact .fault rfl

namespace Parser

/-- The name is only told where an infallible parser has failed. -/
theorem follows_retarget {name name' : String} {source target : Declared ω} {res : Outcome ω} :
    Follows c K E Eq (retarget cb name source target res) (retarget cb' name' source target res) := by
  refine .ask fun k _ => ?_
  split
  · exact .ask fun e _ => .ask fun said _ => .fault rfl
  · exact .ask fun e _ => .bind_eq (Conversion.follows_coerce hcb) fun e' =>
      .ask fun pos _ => .pure rfl

theorem follows_refined {target : Declared ω} {v : Value ω} :
    Follows c K E Eq (refined cb target v) (refined cb' target v) := by
  unfold refined
  split
  · refine .ask fun e _ => .bind_eq (Conversion.follows_coerce hcb) fun e' => .ask fun pos _ => ?_
    split
    · exact .save_bind fun d hd => .pure rfl
    · exact .pure rfl
  · split <;> exact .pure rfl

theorem follows_apply {f : Mapping ω} {v : Value ω} :
    Follows c K E Eq (f.apply cb v) (f.apply cb' v) := by
  unfold Mapping.apply
  split
  · exact .pure rfl
  · exact .pure rfl
  · exact .pure rfl
  · exact .pure rfl
  · exact hcb.follows_call _ _
  · exact .pure rfl

end Parser

end Pieces

namespace Parser

theorem follows_normalise {name : String} {v : Value ω} :
    Follows (σ := σ) c K E Eq (normalise name v) (normalise name v) := by
  unfold normalise
  split
  · refine .ask fun pos _ => ?_
    split
    · exact .ask fun e _ => .save_bind fun d hd => .pure rfl
    · exact .pure rfl
  · split
    · exact .pure rfl
    · exact .ask fun said _ => .fault rfl

section Closed

variable (hK : Cursor.Closed K)

include hK

theorem follows_skipRun {p : Char → Bool} :
    Follows (σ := σ) c K E Eq (skipRun p) (skipRun p) := by
  refine .of_relates (.after .cursor fun d => ?_) (keeps_skipRun hK)
  dsimp only
  split
  · exact .after .setCursor fun _ => .pure rfl
  · exact .pure rfl

/-- What a repetition says where it stands still may differ. -/
theorem follows_looped {ch : Level.Channel} {message message' : String}
    {x y : Action ω σ (Outcome ω)} (hxy : Follows c K E Eq x y) :
    ∀ (n : Nat) (done : List (Value ω)),
      Follows c K E Eq (looped ch message x n done) (looped ch message' y n done)
  | 0, _ => .exhausted
  | n + 1, done => by
    rw [looped, looped]
    refine .save_bind fun d hd => .bind_eq hxy fun a => .ifSucceeded (fun _ => ?_) fun _ => ?_
    · exact .bind_eq (.of_relates relates_checkProgress keeps_checkProgress) fun _ =>
        .ask fun v _ => follows_looped hxy n (v :: done)
    · exact .bind_eq (.rewindTo hK hd) fun _ => .pure rfl

theorem follows_runSepBy1 {cb cb' : Callbacks ω σ} (hrounds : cb.rounds = cb'.rounds)
    {name name' : String} {item item' sep sep' : Action ω σ (Outcome ω)}
    (hi : Follows c K E Eq item item') (hs : Follows c K E Eq sep sep') :
    Follows c K E Eq (runSepBy1 cb name item sep) (runSepBy1 cb' name' item' sep') := by
  refine .bind_eq hi fun a => .ifSucceeded (fun _ => .ask fun v _ => ?_) fun _ => .pure rfl
  rw [separated_eq_looped, separated_eq_looped, hrounds]
  have hround : Follows c K E Eq (pairing item sep) (pairing item' sep') :=
    .bind_eq hs fun a => .ifSucceeded (fun _ => hi) fun _ => .pure rfl
  exact .bind_eq (follows_looped hK hround _ _) fun vs => .pure rfl

end Closed

/-- Where tracing was taken out the run goes on as before, unless an outcome cannot be told. -/
theorem Erases.follows_run {cb cb' : Callbacks ω σ} {n : Int}
    (hn : c.settings.tracePreview.toInt? = some n) (hK : Cursor.Closed K)
    (hcb : cb.Erases c K E T cb') {p q : Parser ω} (h : p.Erases T q) :
    Follows c K E Eq (p.run cb) (q.run cb') := by
  induction h with
  | function name d step => exact .bind_eq (hcb.step step) fun v => follows_normalise
  | nextChar =>
    refine .cursor_bind fun d hd => ?_
    split
    · exact .pure rfl
    · next hend =>
      have hstop : K (d.onTo (d.pos + 1)) := hK.onTo hd (Nat.le_succ _) (Cursor.next_within hend)
      exact .bind_eq (.setCursor hstop) fun _ => .pure rfl
  | word =>
    refine .cursor_bind fun d hd => .bind_eq (follows_skipRun hK) fun n => ?_
    split <;> exact .pure rfl
  | whitespace => exact .bind_eq (follows_skipRun hK) fun n => .pure rfl
  | eof =>
    refine .cursor_bind fun d hd => ?_
    split
    · exact .pure rfl
    · exact .after .context .context fun _ => .ask fun found _ => .pure rfl
  | take literal =>
    refine .cursor_bind fun d hd => ?_
    dsimp only
    split
    · next hstart =>
      have hstop : K (d.onTo (d.pos + literal.length)) :=
        hK.onTo hd (Nat.le_add_right _ _) (Cursor.literal_within (hK.within hd) hstart)
      exact .bind_eq (.setCursor hstop) fun _ => .pure rfl
    · exact .pure rfl
  | pure v => exact .pure rfl
  | fail e => exact .save_bind fun d hd => .pure rfl
  | seq hp hq ihp ihq =>
    rw [run, run, hp.declares_eq, hq.declares_eq]
    refine .bind_eq ihp fun a => .ifSucceeded (fun _ => ?_) fun _ => follows_retarget hcb
    refine .bind_eq ihq fun b => .ifSucceeded (fun _ => ?_) fun _ => follows_retarget hcb
    exact .ask fun v _ => .ask fun w _ => .pure rfl
  | bind next hp ih =>
    rw [run, run, hp.declares_eq]
    refine .bind_eq ih fun a => .ifSucceeded (fun _ => ?_) fun _ => follows_retarget hcb
    refine .ask fun v _ => .bind_eq (hcb.follows_call next v) fun w => ?_
    refine .bind ((Operand.erases_ofValue hcb.operand w).toParser none) fun q q' hq => ?_
    rw [hq.declares_eq]
    exact .bind_eq (hcb.resume q q' hq) fun out => .ifSucceeded (fun _ => .pure rfl) fun _ =>
      follows_retarget hcb
  | map f hp ih =>
    refine .bind_eq ih fun a => .ifSucceeded (fun _ => ?_) fun _ => .pure rfl
    exact .ask fun v _ => .bind_eq (follows_apply hcb) fun w => .pure rfl
  | refine f err hp ih =>
    rw [run, run, hp.declares_eq]
    refine .bind_eq ih fun a => .ifSucceeded (fun _ => ?_) fun _ => follows_retarget hcb
    -- What the function raises is the same on both sides, so it is caught on both or on neither.
    refine .bind_eq (.of_relates (.catching (.after .ask fun v => hcb.call f v))
      (.catching (.bind .ask fun v => hcb.keeps f v))) fun r => ?_
    rcases r with e | w
    · exact .bind_eq (Conversion.follows_coerce hcb) fun e' => .save_bind fun d hd => .pure rfl
    · exact follows_refined hcb
  | convert target hp ih =>
    rw [run, run, hp.declares_eq]
    exact .bind_eq ih fun a => .ifSucceeded (fun _ => .pure rfl) fun _ => follows_retarget hcb
  | mapErr f err hp ih =>
    refine .bind_eq ih fun a => .ifSucceeded (fun _ => .pure rfl) fun _ => ?_
    exact .ask fun e _ => .bind_eq (hcb.follows_call f e) fun e' => .ask fun pos _ => .pure rfl
  | alt hp hq ihp ihq =>
    rw [run, run, hp.declares_eq, hq.declares_eq]
    refine .save_bind fun d hd => .bind_eq ihp fun a =>
      .ifSucceeded (fun _ => .pure rfl) fun _ => .bind_eq (.rewindTo hK hd) fun _ => ?_
    refine .bind_eq ihq fun b => .ifSucceeded (fun _ => .pure rfl) fun _ => ?_
    exact .bind_eq (.rewindTo hK hd) fun _ => follows_retarget hcb
  | rewind hp ih =>
    exact .save_bind fun d hd => .bind_eq ih fun a => .ifSucceeded (fun _ => .pure rfl) fun _ =>
      .bind_eq (.rewindTo hK hd) fun _ => .pure rfl
  | option default hp ih =>
    exact .save_bind fun d hd => .bind_eq ih fun a => .ifSucceeded (fun _ => .pure rfl) fun _ =>
      .bind_eq (.rewindTo hK hd) fun _ => .pure rfl
  | many hp ih =>
    rw [run, run, repeated_eq_looped, repeated_eq_looped, hcb.rounds]
    exact .bind_eq (follows_looped hK ih _ _) fun vs => .pure rfl
  | sepBy1 hp hq ihp ihq => exact follows_runSepBy1 hK hcb.rounds ihp ihq
  | sepBy hp hq ihp ihq =>
    refine .save_bind fun d hd => .bind_eq (follows_runSepBy1 hK hcb.rounds ihp ihq) fun a => ?_
    exact .ifSucceeded (fun _ => .pure rfl) fun _ => .bind_eq (.rewindTo hK hd) fun _ => .pure rfl
  | later d factory => exact .bind (hcb.force factory) fun q q' hq => hcb.resume q q' hq
  | trace label => exact .after (blind_runTrace label) keeps_runTrace fun _ => .pure rfl
  | traced label hp ih =>
    refine .after (blind_runTrace label) keeps_runTrace fun _ => .save_bind fun d hd =>
      .bind_eq ih fun a => .ifSucceeded (fun _ => ?_) fun _ => ?_
    · exact .ask fun v _ =>
        .after (relates_logShown _ _ _ _) keeps_logShown fun _ => .pure rfl
    · exact .bind_eq (.rewindTo hK hd) fun _ => .after (blind_runTrace _) keeps_runTrace fun _ =>
        .ask fun e _ => .after (relates_logShown _ _ _ _) keeps_logShown fun _ =>
          .pure rfl
  | traceErased label => exact .skip (quiet_runTrace hn label) (.pure rfl)
  | @tracedErased p p' label hT hp ih =>
    refine .skip (quiet_runTrace hn label) (.save_bind fun d hd => .bind ih.returning ?_)
    rintro a _ ⟨rfl, s, t, hs, ha⟩
    have hE (f : Fault) : a.Untold f → E f.exception := hcb.tells p hT s a t f hs ha
    refine .ifSucceeded (fun h => follows_told h _ _ hE) fun h => ?_
    exact .bind_eq (.rewindTo hK hd) fun _ =>
      .skip (quiet_runTrace hn _) (follows_told h _ _ hE)

end Parser

/-! ## Whole runs -/

/-- Wherever `K` is true of the cursor, what the parser returns can be told, or raises one of the
exceptions `E`. -/
def Host.Tells (h : Host ω σ) (c : Context ω) (K : Cursor ω → Prop) (E : Value ω → Prop)
    (p : Parser ω) : Prop :=
  ∀ rounds depth s a t f, K s.cursor → p.run (h.callbacks rounds depth) c s = (.returned a, t) →
    a.Untold f → E f.exception

/-- The host programs do the same to values; their parsing functions do so given ways to run parsers that do
so up to tracing; and the parsers that they make are the same up to tracing. -/
structure Host.Erases (c : Context ω) (K : Cursor ω → Prop) (E : Value ω → Prop)
    (h h' : Host ω σ) : Prop where
  /-- A function may run parsers, but what it raises may be caught, so it is the very same. -/
  call : ∀ rounds depth f v, Relates c id Eq ((h.callbacks rounds depth).call f v)
    ((h'.callbacks rounds depth).call f v)
  keeps : ∀ rounds depth f v, ((h.callbacks rounds depth).call f v).Keeps K c
  step : ∀ {run run' : Runner ω σ}, Runner.Erases c K E (h.Tells c K E) run run' →
    ∀ f, Follows c K E Eq (h.step run f) (h'.step run' f)
  force : ∀ {run run' : Runner ω σ}, Runner.Erases c K E (h.Tells c K E) run run' →
    ∀ f, Follows c K E (Parser.Erases (h.Tells c K E)) (h.force run f) (h'.force run' f)
  operand : ∀ o, (h.operand o).Erases (h.Tells c K E) (h'.operand o)

variable {h h' : Host ω σ} {n : Int}

theorem Host.Erases.callbacks (hn : c.settings.tracePreview.toInt? = some n) (hK : Cursor.Closed K)
    (hh : h.Erases c K E h') (rounds depth : Nat) :
    (h.callbacks rounds depth).Erases c K E (h.Tells c K E) (h'.callbacks rounds depth) := by
  induction depth with
  | zero =>
    have hrun : Runner.Erases (σ := σ) c K E (h.Tells c K E) (fun _ => exhausted)
        fun _ => exhausted := fun _ _ _ => .exhausted
    exact ⟨hh.call rounds 0, hh.keeps rounds 0, hh.step hrun, hh.force hrun, hh.operand, hrun, rfl,
      fun _ hp => hp rounds 0⟩
  | succ depth ih =>
    have hrun : Runner.Erases c K E (h.Tells c K E) (fun p => p.run (h.callbacks rounds depth))
        fun p => p.run (h'.callbacks rounds depth) := fun _ _ hpq => hpq.follows_run hn hK ih
    exact ⟨hh.call rounds _, hh.keeps rounds _, hh.step hrun, hh.force hrun, hh.operand, hrun, rfl,
      fun _ hp => hp rounds _⟩

namespace Parser

/-- Where an outcome cannot be told, a trace raises an exception and backtracking returns the outcome. -/
theorem traced_of_untold (hn : c.settings.tracePreview.toInt? = some n) {cb : Callbacks ω σ}
    {label : String} {q : Parser ω} {s r t : State ω σ} {a : Outcome ω} {f : Fault}
    (hr : runTrace label c s = (.returned (), r)) (ha : q.run cb c r = (.returned a, t))
    (hf : a.Untold f) :
    (∃ u, (traced label q).run cb c s = (.raised f.exception, u)) ∧
      ∃ u, (rewind q).run cb c r = (.returned a, u) := by
  obtain ⟨b, hb, -⟩ := id hf
  cases b with
  | true =>
    refine ⟨⟨t, ?_⟩, t, ?_⟩
    · simp only [run, bind_apply, hr, save_apply, ha, hb, monadLift_ok, pure_apply, if_true]
      exact told_raises hb _ _ hf t
    · simp only [run, bind_apply, save_apply, ha, hb, monadLift_ok, pure_apply, if_true]
  | false =>
    obtain ⟨u, -, hu⟩ := quiet_runTrace (σ := σ) hn (label ++ " backtracked")
      (t.backTo r.cursor.toMark)
    refine ⟨⟨u, ?_⟩, t.backTo r.cursor.toMark, ?_⟩
    · simp only [run, bind_apply, hr, save_apply, ha, hb, monadLift_ok, pure_apply,
        Bool.false_eq_true, if_false, rewindTo_apply, hu]
      exact told_raises hb _ _ hf u
    · simp only [run, bind_apply, save_apply, ha, hb, monadLift_ok, pure_apply,
        Bool.false_eq_true, if_false, rewindTo_apply]

/-- A parser that traces comes to what its erasure comes to, and declares the same error, whatever the log
writes and however much of the input it shows; only an outcome of a traced parser that cannot be told
raises an exception instead. It does so wherever it occurs, where the erasure returns the outcome. -/
theorem tracing_erased (hn : c.settings.tracePreview.toInt? = some n) (hK : Cursor.Closed K)
    (hh : h.Erases c K E h') (p : Parser ω) (hp : ∀ q ∈ p.tracedParts, h.Tells c K E q) :
    p.declares = p.untraced.declares ∧
    (∀ rounds depth, Follows c K E Eq (p.run (h.callbacks rounds depth))
      (p.untraced.run (h'.callbacks rounds depth))) ∧
    ∀ (cb : Callbacks ω σ) label (q : Parser ω) s, ∃ r, r.Alike id s ∧ ∀ a t f,
      q.run cb c r = (.returned a, t) → a.Untold f →
        (∃ u, (traced label q).run cb c s = (.raised f.exception, u)) ∧
        ∃ u, (rewind q).run cb c r = (.returned a, u) := by
  have herases : p.Erases (h.Tells c K E) p.untraced := .untraced p hp
  refine ⟨herases.declares_eq, fun rounds depth =>
    herases.follows_run hn hK (hh.callbacks hn hK rounds depth), fun cb label q s => ?_⟩
  obtain ⟨r, hr, hquiet⟩ := quiet_runTrace (σ := σ) hn label s
  exact ⟨r, hr, fun a t f ha hf => traced_of_untold hn hquiet ha hf⟩

end Parser

/-- The cursor is at a place of the input that is told by its number. -/
structure Cursor.Numbered (source : List Char) (d : Cursor ω) : Prop where
  same : d.source = source
  within : d.pos ≤ source.length
  plain : d.given = none

section Numbered

variable {source : List Char}

omit [HostObject ω] in
theorem Cursor.closed_numbered : Cursor.Closed (Cursor.Numbered (ω := ω) source) where
  within h := h.same ▸ h.within
  onTo h _ hn := ⟨h.same, h.same ▸ hn, rfl⟩
  backTo h he := ⟨h.same, he.within, he.plain⟩

/-- A word can be told, and so can it be told that there is none. -/
theorem Parser.tells_word : h.Tells c (Cursor.Numbered source) E .word := by
  rintro rounds depth ⟨⟨⟨pos, given⟩, source⟩, log, own⟩ a t f hs hr hf
  obtain rfl : given = none := hs.plain
  obtain ⟨d, u, hd, hr⟩ := bind_returned.1 hr
  cases hd
  obtain ⟨n, v, -, hr⟩ := bind_returned.1 hr
  split at hr
  · cases hr
    exact absurd hf Outcome.not_untold_err
  · cases hr
    exact absurd hf Outcome.not_untold_ok

end Numbered

namespace Assignment

/-- Programs that read assignments, and otherwise make a parser and its erasure. -/
theorem host_erases {c : Context Function} {K : Cursor Function → Prop} {E : Value Function → Prop}
    (hc : c.registry = registry) {p q : Parser Function}
    (hpq : p.Erases (Host.Tells { host with force := fun _ _ => Pure.pure p } c K E) q) :
    Host.Erases c K E { host with force := fun _ _ => Pure.pure p }
      { host with force := fun _ _ => Pure.pure q } := by
  have hname : Follows c K E Eq (name : Act _) name := by
    refine .of_relates (fun s t hst => ?_) (.of_cursor_eq fun s => ?_)
    · rw [name_returned hc, name_returned hc]
      exact ⟨.returned rfl, hst⟩
    · rw [name_returned hc]
  have hvalue : Follows c K E Eq (value : Act _) value := by
    refine .of_relates (fun s t hst => ?_) (.of_cursor_eq fun s => ?_)
    · rw [value_returned hc, value_returned hc]
      exact ⟨.returned rfl, hst⟩
    · rw [value_returned hc]
  refine ⟨fun rounds depth f v => ?_, fun rounds depth f v => ?_, fun hrun f => ?_,
    fun _ f => .pure hpq, fun o => .same _⟩
  · cases depth <;> cases f with
    | number => exact .after .ask fun n => .pure rfl
    | assignment => exact .pure rfl
  · cases depth <;> cases f with
    | number => exact .bind .ask fun n => .pure _
    | assignment => exact .pure _
  · cases f with
    | number => exact .pure rfl
    | assignment =>
      refine .bind_eq (.bind_eq hname fun p => .bind_eq (hrun p p (.refl _ p)) fun n => ?_)
        fun res => .pure rfl
      refine .ifSucceeded (fun _ => ?_) fun _ => .pure rfl
      refine .bind_eq hvalue fun q => .bind_eq (hrun q q (.refl _ q)) fun v => ?_
      exact .ifSucceeded (fun _ => .ask fun n _ => .ask fun w _ => .pure rfl) fun _ => .pure rfl

end Assignment

namespace Parser

/-- Two words that are traced, the second of them made by the host program, and what is left between them:
the log writes all of it, and shows none of the input. -/
theorem tracing_erased_words :
    let making (p : Parser Assignment.Function) : Host Assignment.Function Unit :=
      { Assignment.host with force := fun _ _ => Pure.pure p }
    let h := making (.traced "second" .word)
    let h' := making (.rewind .word)
    let c : Context Assignment.Function :=
      ⟨Assignment.registry, { tracePreview := .int (-1) }, .debug⟩
    let K : Cursor Assignment.Function → Prop := Cursor.Numbered ['a', ' ', 'b']
    let s : State Assignment.Function Unit := ⟨.ofList ['a', ' ', 'b'], [], ()⟩
    let p : Parser Assignment.Function := .seq (.traced "first" .word)
      (.seq (.trace "rest") (.seq .whitespace (.later .undeclared .number)))
    c.settings.tracePreview.toInt? = some (-1) ∧ Cursor.Closed K ∧ h.Erases c K (fun _ => False) h' ∧
      (∀ q ∈ p.tracedParts, h.Tells c K (fun _ => False) q) ∧ K s.cursor ∧
      ∃ a t u, p.run (h.callbacks 1 1) c s = (.returned a, t) ∧
        p.untraced.run (h'.callbacks 1 1) c s = (.returned a, u) ∧ t.cursor = u.cursor := by
  intro making h h' c K s p
  have htells : h.Tells c K (fun _ => False) .word := tells_word
  have hh : h.Erases c K (fun _ => False) h' :=
    Assignment.host_erases rfl (.tracedErased "second" htells .word)
  have hp : ∀ q ∈ p.tracedParts, h.Tells c K (fun _ => False) q := by
    simpa [p, tracedParts] using htells
  have hs : K s.cursor := ⟨rfl, by decide, rfl⟩
  obtain ⟨-, hruns, -⟩ := tracing_erased (n := -1) rfl Cursor.closed_numbered hh p hp
  obtain ⟨a, u, hrun⟩ : ∃ a u, p.untraced.run (h'.callbacks 1 1) c s = (.returned a, u) :=
    ⟨_, _, rfl⟩
  obtain ⟨t, hrun', ht⟩ := (hruns 1 1).returned_of_never (.refl s) hs hrun
  exact ⟨rfl, Cursor.closed_numbered, hh, hp, hs, a, t, u, hrun', hrun, ht.cursor⟩

/-- A zero of a kind that is also that of a success counts as a failure, and has no error. An option has a
default for it, but a trace asks for its error. -/
theorem trace_asks_discarded :
    let kind : Kind := .mk "OI" 1 [.int, .ok]
    Kind.derive? "OI" 1 [.int, .ok] = some kind ∧
      ∃ (v : Value Assignment.Function) (f : Fault), Value.construct kind [.int 0] = .ok v ∧
        let h : Host Assignment.Function Unit :=
          { Assignment.host with step := fun _ _ => Pure.pure v }
        let c : Context Assignment.Function := ⟨.empty, {}, .warning⟩
        let s : State Assignment.Function Unit := ⟨.ofList ['a', 'b', 'c'], [], ()⟩
        let p : Parser Assignment.Function :=
          .option .none (.traced "t" (.function "p" .undeclared .assignment))
        p.run (h.callbacks 1 1) c s = (.raised f.exception, s) ∧
          p.untraced.run (h.callbacks 1 1) c s = (.returned (.ok .none), s) := by
  exact ⟨rfl, _, _, rfl, rfl, rfl⟩

end Parser

end ParserAlgebra
