import ParserAlgebra.Proofs.Backtracking
import ParserAlgebra.Proofs.Onward
import ParserAlgebra.Proofs.Sequencing

/-!
# The laws of alternatives

What is tried in place of a failure is tried from where the failed attempt began, so it does not matter how
alternatives are nested (`Parser.alternation`). An alternative that fails is given up without a trace, and
the same alternative once more has nothing to add: it fails again, and only gives back what it consumed, as
`rewind` does.

As with sequences, `fail` and `pure` show in their names what they are built from. Where it has no shown
form there is no such alternative, though another one may do.
-/

namespace ParserAlgebra

variable {ω σ : Type} {c : Context ω} {h : Host ω σ} {T : Kind}

/-! ## Attempts in place of each other -/

theorem State.backTo_cursor {s t : State ω σ} (h : t.cursor.source = s.cursor.source) :
    (t.backTo s.cursor.toMark).cursor = s.cursor := by
  change ({ toMark := s.cursor.toMark, source := t.cursor.source } : Cursor ω) = s.cursor
  rw [h]

namespace Action

variable {x x' y y' z : Action ω σ (Upshot ω)}

theorem restoring_apply (x : Action ω σ (Upshot ω)) (s : State ω σ) :
    x.restoring c s = match x c s with
      | (.returned (.failed e pos), t) => (.returned (.failed e pos), t.backTo s.cursor.toMark)
      | r => r := by
  change (x >>= restored s.cursor.toMark) c s = _
  rw [bind_apply]
  rcases x c s with ⟨(v | ⟨e, pos⟩) | e | _, t⟩ <;> rfl

theorem otherwise_apply (x y : Action ω σ (Upshot ω)) (s : State ω σ) :
    x.otherwise y c s = match x c s with
      | (.returned (.failed _ _), t) => y.restoring c (t.backTo s.cursor.toMark)
      | r => r := by
  unfold otherwise
  rw [bind_apply, save_apply]
  dsimp only
  rw [bind_apply]
  rcases x c s with ⟨(v | ⟨e, pos⟩) | e | _, t⟩ <;> rfl

theorem restoring_congr (h : x c = x' c) : x.restoring c = x'.restoring c := by
  funext s
  rw [restoring_apply, restoring_apply, h]

theorem otherwise_congr (hx : x c = x' c) (hy : y c = y' c) :
    x.otherwise y c = x'.otherwise y' c := by
  funext s
  rw [otherwise_apply, otherwise_apply, hx, restoring_congr hy]

theorem restoring_restoring (x : Action ω σ (Upshot ω)) : x.restoring.restoring = x.restoring := by
  funext c s
  rw [restoring_apply, restoring_apply]
  rcases x c s with ⟨(v | ⟨e, pos⟩) | e | _, t⟩ <;> rfl

/-- However the attempts are nested, each of them starts from the same place. -/
theorem otherwise_otherwise (x y z : Action ω σ (Upshot ω)) :
    (x.otherwise y).otherwise z = x.otherwise (y.otherwise z) := by
  funext c s
  simp only [otherwise_apply, restoring_apply]
  rcases x c s with ⟨(v | ⟨e, pos⟩) | e | _, t⟩
  case returned.failed =>
    dsimp only
    rcases y c (t.backTo s.cursor.toMark) with ⟨(v | ⟨e, pos⟩) | e | _, u⟩
    case returned.failed =>
      dsimp only [State.backTo_toMark, State.backTo_backTo]
      rcases z c (u.backTo s.cursor.toMark) with ⟨(v | ⟨e, pos⟩) | e | _, w⟩ <;> rfl
    all_goals rfl
  all_goals rfl

theorem succeeded_otherwise (v : Value ω) (y : Action ω σ (Upshot ω)) :
    (Pure.pure (.succeeded v) : Action ω σ (Upshot ω)).otherwise y = Pure.pure (.succeeded v) := rfl

theorem failed_otherwise (e : Value ω) (y : Action ω σ (Upshot ω)) :
    (do return .failed e (← save).value : Action ω σ (Upshot ω)).otherwise y = y.restoring := rfl

/-- The second attempt starts from the cursor of the first one and fails as that one did, if nothing but
the cursor counts. -/
theorem otherwise_self (hx : x.Blind c fun _ => ())
    (hin : ∀ source, x.Keeps (fun d => d.source = source) c) :
    Relates c (fun _ => ()) Eq (x.otherwise x) x.restoring := by
  have hrestoring : x.restoring.Blind c fun _ => () :=
    .after .save fun m => .after hx fun u => by
      cases u with
      | succeeded v => exact .pure rfl
      | failed e pos => exact .after .rewindTo fun _ => .pure rfl
  intro s t hst
  rcases hr : x c s with ⟨(v | ⟨e, pos⟩) | e | _, u⟩
  case returned.failed =>
    have hback : (u.backTo s.cursor.toMark).cursor = s.cursor :=
      State.backTo_cursor ((hin s.cursor.source).returned hr rfl)
    rw [otherwise_apply, hr]
    exact hrestoring _ t ⟨hback.trans hst.cursor, rfl⟩
  all_goals
    have hsame : x.otherwise x c s = x.restoring c s := by rw [otherwise_apply, restoring_apply, hr]
    rw [hsame]
    exact hrestoring s t hst

theorem Relates.proceed {τ : Type} {view : σ → τ} {k : Value ω → Action ω σ (Upshot ω)}
    (hx : x.Blind c view) (hk : ∀ v, (k v).Blind c view) : (x.proceed k).Blind c view :=
  .after hx fun u => by
    cases u with
    | succeeded v => exact hk v
    | failed e pos => exact .pure rfl

theorem Keeps.proceed {K : Cursor ω → Prop} {k : Value ω → Action ω σ (Upshot ω)}
    (hx : x.Keeps K c) (hk : ∀ v, (k v).Keeps K c) : (x.proceed k).Keeps K c :=
  .bind hx fun u => by
    cases u with
    | succeeded v => exact hk v
    | failed e pos => exact .pure _

end Action

variable [HostObject ω]

namespace Parser

open ParserAlgebra.Action

variable {cb : Callbacks ω σ} {p q r f : Parser ω} {e : Value ω}

/-- What is observed of a run, and where it ends, depends only on the cursor; and the run stays in its
input. -/
structure CursorOnly (h : Host ω σ) (c : Context ω) (p : Parser ω) : Prop where
  blind : ∀ rounds depth, (p.observed (h.callbacks rounds depth)).Blind c fun _ => ()
  input : ∀ rounds depth source,
    (p.observed (h.callbacks rounds depth)).Keeps (fun d => d.source = source) c

/-! ## The laws -/

theorem behavesAs_of_eq (hpq : ∀ rounds depth, p.observed (h.callbacks rounds depth) c =
    q.observed (h.callbacks rounds depth) c) : p.BehavesAs h c q := by
  intro s answer d
  simp only [EndsWith, hpq]

theorem alt_alt (hp : p.Upright h c T) (hq : q.Upright h c T) (hr : r.Upright h c T) :
    (alt (alt p q) r).BehavesAs h c (alt p (alt q r)) := by
  refine behavesAs_of_eq fun rounds depth => ?_
  have hp := hp rounds depth
  have hq := hq rounds depth
  have hr := hr rounds depth
  rw [observed_alt (hp.alt hq) hr, otherwise_congr (observed_alt hp hq) rfl, otherwise_otherwise,
    observed_alt hp (hq.alt hr), otherwise_congr rfl (observed_alt hq hr)]

/-- The same alternative again only gives back what was consumed. -/
theorem alt_self (hp : p.Upright h c T) (ho : p.CursorOnly h c) :
    (alt p p).BehavesAs h c (rewind p) := by
  have hrelates (rounds depth : Nat) : Relates c (fun _ => ()) Eq
      ((alt p p).observed (h.callbacks rounds depth))
      ((rewind p).observed (h.callbacks rounds depth)) := by
    have hp := hp rounds depth
    unfold Relates
    rw [observed_alt hp hp, observed_rewind hp]
    exact otherwise_self (ho.blind rounds depth) (ho.input rounds depth)
  exact behavesAs_of_relates hrelates

theorem rewind_rewind (hp : p.Upright h c T) : (rewind (rewind p)).BehavesAs h c (rewind p) := by
  refine behavesAs_of_eq fun rounds depth => ?_
  have hp := hp rounds depth
  rw [observed_rewind hp.rewind, restoring_congr (observed_rewind hp), restoring_restoring,
    observed_rewind hp]

theorem pure_alt (hp : p.Upright h c T) (v : Value ω) :
    (alt (pure v) p).BehavesAs h c (pure v) := by
  refine behavesAs_of_eq fun rounds depth => ?_
  rw [observed_alt (faithful_pure v) (hp rounds depth), observed_pure, succeeded_otherwise]

theorem faithful_fail (he : e.Instance T) (hk : e.kindOf = T) : (fail e).Faithful cb c T := by
  refine ⟨.inl (by rw [declares, hk]), ?_⟩
  rw [run]
  refine .bind .save fun m _ => .pure (.failure rfl rfl rfl ?_ (Declared.admits_kind.2 (.inr he.isA)))
  exact he.fallible

/-- A failure is given up for what comes after it. -/
theorem fail_alt (hp : p.Upright h c T) (he : e.Instance T) (hk : e.kindOf = T) :
    (alt (fail e) p).BehavesAs h c (rewind p) := by
  refine behavesAs_of_eq fun rounds depth => ?_
  have hp := hp rounds depth
  rw [observed_alt (faithful_fail he hk) hp, observed_fail, failed_otherwise, observed_rewind hp]

/-- What comes after a failure fails in its place. -/
theorem EndsWith.alt_fail (hp : p.Upright h c T) (ho : p.CursorOnly h c) (he : e.Instance T)
    (hk : e.kindOf = T) {s : State ω σ} {e' pos : Value ω} {d : Cursor ω}
    (hfails : p.EndsWith h c s (.returned (.failed e' pos)) d) :
    (alt p (fail e)).EndsWith h c s (.returned (.failed e s.cursor.value)) s.cursor := by
  obtain ⟨rounds, depth, t, hx, -⟩ := hfails.exists_run
  have hsource := (ho.input rounds depth s.cursor.source).returned hx rfl
  have hrun : (alt p (fail e)).observed (h.callbacks rounds depth) c s =
      (.returned (.failed e s.cursor.value), t.backTo s.cursor.toMark) := by
    rw [observed_alt (hp rounds depth) (faithful_fail he hk), otherwise_apply, hx, observed_fail]
    rfl
  have hends := EndsWith.of_run (by simp) hrun
  rwa [State.backTo_cursor hsource] at hends

/-! ## Failures of any kind -/

theorem observed_returned {s t : State ω σ} {u : Upshot ω}
    (hx : p.observed cb c s = (.returned u, t)) :
    ∃ a, p.run cb c s = (.returned a, t) ∧ a.upshot? = .ok u := by
  obtain ⟨a, _, ha, hask⟩ := Action.bind_returned.1 hx
  obtain ⟨hu, rfl⟩ := Action.ask_returned.1 hask
  exact ⟨a, ha, hu⟩

theorem failed_of_upshot? {a : Outcome ω} {e pos : Value ω} (h : a.upshot? = .ok (.failed e pos)) :
    a.succeeded = .ok false := by
  unfold Outcome.upshot? at h
  rcases ha : a.succeeded with g | _ | _
  · rw [ha] at h
    cases h
  · rfl
  · rcases hv : a.value with g | v <;> rw [ha, hv] at h <;> cases h

/-- Of two failures the alternative gives everything back, and so does converting the second one. -/
theorem toMark_of_both_failed (hc : ConversionsStay cb c) {s t t' w : State ω σ} {a b : Outcome ω}
    {u : Upshot ω} (hp : p.run cb c s = (.returned a, t)) (ha : a.succeeded = .ok false)
    (hq : q.run cb c (t.backTo s.cursor.toMark) = (.returned b, t')) (hb : b.succeeded = .ok false)
    (hx : (alt p q).observed cb c s = (.returned u, w)) : w.cursor.toMark = s.cursor.toMark := by
  obtain ⟨r, hr, -⟩ := observed_returned hx
  rw [run_alt_of_both_failed hp ha hq hb] at hr
  exact retarget_stays hc _ _ _ b (t'.backTo s.cursor.toMark) r w hr

/-- Where a parser fails, so do its alternatives with `fail`, of any kind, and give everything back. -/
theorem EndsWith.given_back (hh : h.Monotone c)
    (hc : ∀ rounds depth, ConversionsStay (h.callbacks rounds depth) c) {s : State ω σ}
    {e' pos : Value ω} {d d' : Cursor ω} {u : Upshot ω}
    (hfails : p.EndsWith h c s (.returned (.failed e' pos)) d)
    (hf : f = alt (fail e) p ∨ f = alt p (fail e)) (hends : f.EndsWith h c s (.returned u) d') :
    d'.toMark = s.cursor.toMark := by
  obtain ⟨n, m, hfails⟩ := hfails.onwards hh
  obtain ⟨n', m', hends⟩ := hends.onwards hh
  obtain ⟨hfailed, -⟩ := hfails _ _ (Nat.le_max_left n n') (Nat.le_max_left m m')
  obtain ⟨hreturned, rfl⟩ := hends _ _ (Nat.le_max_right n n') (Nat.le_max_right m m')
  have hc := hc (max n n') (max m m')
  generalize h.callbacks (max n n') (max m m') = cb at hfailed hreturned hc ⊢
  obtain ⟨a, ha, hau⟩ := observed_returned (Prod.ext hfailed rfl)
  have hfail (v : State ω σ) : (fail e).run cb c v = (.returned (.err e v.cursor.value), v) := rfl
  rcases hf with rfl | rfl
  · exact toMark_of_both_failed hc (hfail s) rfl ha (failed_of_upshot? hau) (Prod.ext hreturned rfl)
  · exact toMark_of_both_failed hc ha (failed_of_upshot? hau) (hfail _) rfl (Prod.ext hreturned rfl)

/-! ## The laws together -/

theorem mkAlt_of_only (hp : p.declares.Only T) (hq : q.declares.Only T) (s : State ω σ) :
    mkAlt p q c s = (.returned (alt p q), s) := mkAlt_returned.2 ⟨rfl, hp.joins hq, rfl⟩

theorem mkFail_eq_ok : mkFail e = .ok f ↔ f = fail e ∧ ∃ said, e.shown? = .ok said := named_eq_ok

/-- The laws for the parsers `p`, `q` and `r`, which declare `T` or that they do not fail. -/
structure Alternation (h : Host ω σ) (c : Context ω) (T : Kind) (p q r : Parser ω) : Prop where
  alt_alt : ∃ pq qr left right, (∀ s : State ω σ, mkAlt p q c s = (.returned pq, s) ∧
      mkAlt pq r c s = (.returned left, s) ∧ mkAlt q r c s = (.returned qr, s) ∧
      mkAlt p qr c s = (.returned right, s)) ∧ left.BehavesAs h c right
  alt_self : ∃ pp, (∀ s : State ω σ, mkAlt p p c s = (.returned pp, s)) ∧
    pp.BehavesAs h c (rewind p)
  rewind_rewind : (rewind (rewind p)).BehavesAs h c (rewind p)
  pure_alt : ∀ v f, mkPure v = .ok f →
    ∃ fp, (∀ s : State ω σ, mkAlt f p c s = (.returned fp, s)) ∧ fp.BehavesAs h c f
  fail_built : ∀ e : Value ω, (∃ f, mkFail e = .ok f) ↔ ∃ said, e.shown? = .ok said
  fail_alt : ∀ e f, e.Instance T → e.kindOf = T → mkFail e = .ok f →
    ∃ fp, (∀ s : State ω σ, mkAlt f p c s = (.returned fp, s)) ∧ fp.BehavesAs h c (rewind p)
  alt_fail : ∀ e f, e.Instance T → e.kindOf = T → mkFail e = .ok f →
    ∃ pf, (∀ s : State ω σ, mkAlt p f c s = (.returned pf, s)) ∧
      ∀ s e' pos d, p.EndsWith h c s (.returned (.failed e' pos)) d →
        pf.EndsWith h c s (.returned (.failed e s.cursor.value)) s.cursor
  /-- The kind of the error may be another one, into which or out of which errors are converted. -/
  given_back : (∀ rounds depth, ConversionsStay (h.callbacks rounds depth) c) →
    ∀ e f g, mkFail e = .ok f → ∀ s₀ t₀ : State ω σ,
      mkAlt f p c s₀ = (.returned g, t₀) ∨ mkAlt p f c s₀ = (.returned g, t₀) →
        ∀ s e' pos d u d', p.EndsWith h c s (.returned (.failed e' pos)) d →
          g.EndsWith h c s (.returned u) d' → d'.toMark = s.cursor.toMark

/-- The laws hold for all parsers that declare one common kind of error, or none, and keep to it. The
first one, which is tried twice, must depend on nothing but the cursor. -/
theorem alternation (hp : p.Upright h c T) (hq : q.Upright h c T) (hr : r.Upright h c T)
    (ho : p.CursorOnly h c) (hh : h.Monotone c) : Alternation h c T p q r := by
  have hdp := (hp 0 0).declares
  have hdq := (hq 0 0).declares
  have hdr := (hr 0 0).declares
  have hfail {e : Value ω} (hk : e.kindOf = T) : (fail e).declares.Only T := .inl (congrArg _ hk)
  refine ⟨?_, ⟨_, mkAlt_of_only hdp hdp, alt_self hp ho⟩, rewind_rewind hp, fun v f hf => ?_,
    fun e => ?_, fun e f he hk hf => ?_, fun e f he hk hf => ?_, fun hc e f g hf s₀ t₀ hg => ?_⟩
  · have hdpq : (alt p q).declares.Only T := hdp.joined hdq
    have hdqr : (alt q r).declares.Only T := hdq.joined hdr
    exact ⟨_, _, _, _, fun s => ⟨mkAlt_of_only hdp hdq s, mkAlt_of_only hdpq hdr s,
      mkAlt_of_only hdq hdr s, mkAlt_of_only hdp hdqr s⟩, alt_alt hp hq hr⟩
  · obtain ⟨rfl, -⟩ := mkPure_eq_ok.1 hf
    exact ⟨_, mkAlt_of_only (.inr rfl) hdp, pure_alt hp v⟩
  · exact ⟨fun ⟨f, hf⟩ => (mkFail_eq_ok.1 hf).2, fun he => ⟨_, mkFail_eq_ok.2 ⟨rfl, he⟩⟩⟩
  · obtain ⟨rfl, -⟩ := mkFail_eq_ok.1 hf
    exact ⟨_, mkAlt_of_only (hfail hk) hdp, fail_alt hp he hk⟩
  · obtain ⟨rfl, -⟩ := mkFail_eq_ok.1 hf
    exact ⟨_, mkAlt_of_only hdp (hfail hk), fun s e' pos d hfails => hfails.alt_fail hp ho he hk⟩
  · obtain ⟨rfl, -⟩ := mkFail_eq_ok.1 hf
    rintro s e' pos d u d' hfails hends
    exact hfails.given_back hh hc
      (hg.imp (fun h => (mkAlt_returned.1 h).1) fun h => (mkAlt_returned.1 h).1) hends

/-! ## Parsers that depend only on the cursor -/

theorem cursorOnly_take (literal : String) : (take literal).CursorOnly h c := by
  refine ⟨fun _ _ => .after (seeing_take literal).blind fun _ => .ask, fun _ _ source => ?_⟩
  refine .bind ?_ fun _ => .ask
  rw [run]
  refine .cursor_bind fun d hd => ?_
  dsimp only
  split
  · exact .bind (.setCursor hd) fun _ => .pure _
  · exact .pure _

theorem cursorOnly_whitespace : whitespace.CursorOnly h c := by
  refine ⟨fun _ _ => .after (seeing_whitespace (k := .infallible)).blind fun _ => .ask,
    fun _ _ source => ?_⟩
  refine .bind ?_ fun _ => .ask
  rw [run]
  refine .bind (.cursor_bind fun d hd => ?_) fun _ => .pure _
  dsimp only
  split
  · exact .bind (.setCursor hd) fun _ => .pure _
  · exact .pure _

theorem CursorOnly.seq (hp : p.Upright h c T) (hq : q.Upright h c T) (hop : p.CursorOnly h c)
    (hoq : q.CursorOnly h c) : (seq p q).CursorOnly h c := by
  constructor
  · intro rounds depth
    unfold Blind Relates
    rw [observed_seq (hp rounds depth) (hq rounds depth)]
    exact Relates.proceed (hop.blind rounds depth) fun v =>
      .proceed (hoq.blind rounds depth) fun w => .pure rfl
  · intro rounds depth source
    unfold Keeps
    rw [observed_seq (hp rounds depth) (hq rounds depth)]
    exact Keeps.proceed (hop.input rounds depth source) fun v =>
      .proceed (hoq.input rounds depth source) fun w => .pure _

/-- The first alternative consumes before it fails, and the last one cannot fail. -/
theorem alternation_seq :
    let c : Context Maker := ⟨.empty, {}, .warning⟩
    let h : Host Maker Unit := Maker.host
    let s : State Maker Unit := ⟨.ofList ['a', 'c'], [], ()⟩
    let p : Parser Maker := .seq (.take "a") (.take "b")
    p.Upright h c .takeError ∧ (take "c").Upright h c .takeError ∧
      whitespace.Upright h c .takeError ∧ p.CursorOnly h c ∧ h.Monotone c ∧
      Alternation h c .takeError p (take "c") whitespace ∧
      (∀ rounds depth, ConversionsStay (h.callbacks rounds depth) c) ∧
      ∃ e pos d, p.EndsWith h c s (.returned (.failed e pos)) d ∧ d.pos = 1 ∧
        e.Instance .takeError ∧ e.kindOf = .takeError ∧ ∃ f, mkFail e = .ok f := by
  intro c h s p
  have htake (literal : String) : (take literal).Upright h c .takeError :=
    fun _ _ => faithful_take literal
  have hblank : whitespace.Upright h c .takeError := fun _ _ => faithful_whitespace
  have hp : p.Upright h c .takeError := fun rounds depth =>
    (htake "a" rounds depth).seq (htake "b" rounds depth)
  have ho : p.CursorOnly h c :=
    .seq (htake "a") (htake "b") (cursorOnly_take "a") (cursorOnly_take "b")
  exact ⟨hp, htake "c", hblank, ho, Maker.host_monotone,
    alternation hp (htake "c") hblank ho Maker.host_monotone,
    fun _ _ _ _ _ hf => absurd hf (Registry.route?_empty _ _ _),
    _, _, _, ⟨by simp, 0, 0, rfl, rfl⟩, rfl, ⟨rfl, rfl⟩, rfl, _, rfl⟩

/-- The least number that has no shown form is no error to fail with, though a parser that does not fail
makes up for any failure. -/
theorem fail_alt_raises :
    let c : Context Maker := ⟨.empty, {}, .warning⟩
    let s : State Maker Unit := ⟨.ofList [' '], [], ()⟩
    let e : Value Maker := .int Numeral.writeLimit
    whitespace.Upright Maker.host c .int ∧ whitespace.CursorOnly Maker.host c ∧ e.Instance .int ∧
      e.kindOf = .int ∧
      (do mkAlt (← mkFail e) whitespace : Action Maker Unit (Parser Maker)) c s =
        (.raised Fault.tooManyDigits.exception, s) ∧
      ∃ v d, (rewind whitespace).EndsWith Maker.host c s (.returned (.succeeded v)) d ∧ d.pos = 1 := by
  intro c s e
  have hbuilt : (mkFail e : Except Fault (Parser Maker)) = .error .tooManyDigits := by
    rw [mkFail, Value.shown?_writeLimit]
    rfl
  refine ⟨fun _ _ => faithful_whitespace, cursorOnly_whitespace, ⟨rfl, rfl⟩, rfl, ?_,
    _, _, ⟨by simp, 0, 0, rfl, rfl⟩, rfl⟩
  rw [hbuilt]
  rfl

end Parser

end ParserAlgebra
