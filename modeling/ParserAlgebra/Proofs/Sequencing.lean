import ParserAlgebra.Proofs.Observed

/-!
# The laws of sequences

A parser and what a function makes of its value are a monad, as far as it is observed: `pure` is neutral on
both sides of `bind`, and it does not matter how two of them are nested (`Parser.sequencing`). Two parts
one after the other may be taken together in either way, with the values in other pairs.

The one exception is that `pure` shows its value in its name. Where a value has no shown form `pure` cannot
be built, so what goes on to build it raises an exception instead of returning it.
-/

namespace ParserAlgebra

variable {ω σ : Type} {c : Context ω} {h : Host ω σ} {T : Kind}

/-- A pair of which the second part is a pair, with the first two values taken together. -/
def Value.regrouped : Value ω → Value ω
  | .tuple [u, .tuple [v, w]] => .tuple [.tuple [u, v], w]
  | v => v

def Answer.regrouped : Answer ω (Upshot ω) → Answer ω (Upshot ω)
  | .returned (.succeeded v) => .returned (.succeeded v.regrouped)
  | answer => answer

variable [HostObject ω]

/-- The function makes the parser `F v` of a value `v`, however many rounds and however much depth there
are. -/
def Host.Makes (h : Host ω σ) (c : Context ω) (f : ω) (F : Value ω → Except Fault (Parser ω)) :
    Prop :=
  ∀ rounds depth, (h.callbacks rounds depth).Makes c f F

namespace Parser

open ParserAlgebra.Action

variable {p q m : Parser ω} {f g k fg : ω} {F G : Value ω → Parser ω} {rounds depth : Nat}

/-! ## What is made during the run -/

def Reports (h : Host ω σ) (c : Context ω) (T : Kind) (p : Parser ω) : Prop :=
  ∀ rounds depth, p.Reporting c T (p.run (h.callbacks rounds depth))

theorem Upright.reports (hp : p.Upright h c T) : p.Reports h c T :=
  fun rounds depth => (hp rounds depth).reporting

theorem reports_pure (v : Value ω) : (pure v).Reports h c T :=
  fun _ _ => (faithful_pure v).reporting

theorem Reports.resume (hp : p.Reports h c T) (rounds depth : Nat) :
    p.Reporting c T ((h.callbacks rounds depth).resume p) := by
  cases depth with
  | zero => exact ⟨(hp rounds 0).declares, .exhausted⟩
  | succ depth => exact hp rounds depth

theorem resume_within_observed (hh : h.Monotone c) (p : Parser ω) (rounds depth : Nat) :
    ((h.callbacks rounds depth).resume p).upshot.Within c (p.observed (h.callbacks rounds depth)) := by
  cases depth with
  | zero => exact .exhausted
  | succ depth => exact within_observed hh p (Nat.le_refl _) (Nat.le_succ _)

theorem resume_within_resume (hh : h.Monotone c) (p : Parser ω) (rounds depth : Nat) :
    ((h.callbacks rounds depth).resume p).upshot.Within c
      ((h.callbacks rounds (depth + 1)).resume p).upshot := resume_within_observed hh p rounds depth

theorem observed_bind_of_makes (hm : m.Reports h c T) (hf : h.Makes c f fun v => .ok (F v))
    (hF : ∀ v, (F v).Reports h c T) (rounds depth : Nat) :
    (bind m f).observed (h.callbacks rounds depth) c =
      ((m.observed (h.callbacks rounds depth)).proceed fun v =>
        ((h.callbacks rounds depth).resume (F v)).upshot) c :=
  observed_bind (hm rounds depth) (hf rounds depth) fun v q hq => by
    obtain rfl := Except.ok.inj hq
    exact (hF v).resume rounds depth

theorem reports_bind (hm : m.Reports h c T) (hf : h.Makes c f fun v => .ok (F v))
    (hF : ∀ v, (F v).Reports h c T) : (bind m f).Reports h c T := fun rounds depth =>
  reporting_bind (hm rounds depth) (hf rounds depth) fun v q hq => by
    obtain rfl := Except.ok.inj hq
    exact (hF v).resume rounds depth

/-! ## The laws -/

/-- A value is handed on as it is. -/
theorem bind_pure_left (hf : h.Makes c f fun v => .ok (F v)) (hF : ∀ v, (F v).Reports h c T)
    (hh : h.Monotone c) (v : Value ω) : (bind (pure v) f).BehavesAs h c (F v) := by
  have hrun (rounds depth : Nat) : (bind (pure v) f).observed (h.callbacks rounds depth) c =
      ((h.callbacks rounds depth).resume (F v)).upshot c := by
    rw [observed_bind_of_makes (reports_pure v) hf hF, observed_pure, succeeded_proceed]
  refine behavesAs_of_within (fun rounds depth => ⟨rounds, depth, ?_⟩)
    fun rounds depth => ⟨rounds, depth + 1, ?_⟩
  · exact (Within.of_eq (hrun rounds depth)).trans (resume_within_observed hh (F v) rounds depth)
  · exact .of_eq (hrun rounds (depth + 1)).symm

/-- What the second function makes is run within what the first one makes, instead of after it. -/
theorem bind_bind (hm : m.Reports h c T) (hf : h.Makes c f fun v => .ok (F v))
    (hF : ∀ v, (F v).Reports h c T) (hg : h.Makes c g fun v => .ok (G v))
    (hG : ∀ v, (G v).Reports h c T) (hfg : h.Makes c fg fun v => .ok (bind (F v) g))
    (hh : h.Monotone c) : (bind (bind m f) g).BehavesAs h c (bind m fg) := by
  have hleft (rounds depth : Nat) : (bind (bind m f) g).observed (h.callbacks rounds depth) c =
      ((m.observed (h.callbacks rounds depth)).proceed fun v =>
        ((h.callbacks rounds depth).resume (F v)).upshot.proceed fun w =>
          ((h.callbacks rounds depth).resume (G w)).upshot) c := by
    rw [observed_bind_of_makes (reports_bind hm hf hF) hg hG,
      proceed_congr (observed_bind_of_makes hm hf hF rounds depth) fun _ => rfl, proceed_proceed]
  have hmade (v : Value ω) : (bind (F v) g).Reports h c T := reports_bind (hF v) hg hG
  have hright (rounds depth : Nat) := observed_bind_of_makes hm hfg hmade rounds depth
  refine behavesAs_of_within (fun rounds depth => ⟨rounds, depth + 1, ?_⟩)
    fun rounds depth => ⟨rounds, depth, ?_⟩
  · refine (Within.of_eq (hleft rounds depth)).trans ?_
    refine Within.trans ?_ (.of_eq (hright rounds (depth + 1)).symm)
    refine (within_observed hh m (Nat.le_refl _) (Nat.le_succ _)).proceed fun v => ?_
    refine Within.trans ?_ (.of_eq (observed_bind_of_makes (hF v) hg hG rounds depth).symm)
    exact (resume_within_observed hh (F v) rounds depth).proceed fun w => .refl _
  · refine (Within.of_eq (hright rounds depth)).trans ?_
    refine Within.trans ?_ (.of_eq (hleft rounds depth).symm)
    refine (Within.refl _).proceed fun v => ?_
    cases depth with
    | zero => exact .exhausted
    | succ depth =>
      refine (Within.of_eq (observed_bind_of_makes (hF v) hg hG rounds depth)).trans ?_
      exact (Within.refl _).proceed fun w => resume_within_resume hh (G w) rounds depth

/-- Both ways of taking three parts together come to the same, with the values in other pairs. -/
theorem observed_seq_seq {a b d : Parser ω} (ha : a.Upright h c T) (hb : b.Upright h c T)
    (hd : d.Upright h c T) (rounds depth : Nat) :
    (seq (seq a b) d).observed (h.callbacks rounds depth) c =
      (((seq a (seq b d)).observed (h.callbacks rounds depth)).proceed fun v =>
        Pure.pure (.succeeded v.regrouped)) c := by
  have ha := ha rounds depth
  have hb := hb rounds depth
  have hd := hd rounds depth
  generalize h.callbacks rounds depth = cb at ha hb hd ⊢
  have hleft : (seq (seq a b) d).observed cb c = ((a.observed cb).proceed fun u =>
      (b.observed cb).proceed fun v => (d.observed cb).proceed fun w =>
        Pure.pure (.succeeded (.tuple [.tuple [u, v], w]))) c := by
    rw [observed_seq (ha.seq hb) hd, proceed_congr (observed_seq ha hb) fun _ => rfl]
    simp only [proceed_proceed, succeeded_proceed]
  have hright : (seq a (seq b d)).observed cb c = ((a.observed cb).proceed fun u =>
      (b.observed cb).proceed fun v => (d.observed cb).proceed fun w =>
        Pure.pure (.succeeded (.tuple [u, .tuple [v, w]]))) c := by
    rw [observed_seq ha (hb.seq hd)]
    refine proceed_congr rfl fun u => ?_
    rw [proceed_congr (observed_seq hb hd) fun _ => rfl]
    simp only [proceed_proceed, succeeded_proceed]
  rw [hleft, proceed_congr hright fun _ => rfl]
  simp only [proceed_proceed, succeeded_proceed, Value.regrouped]

/-! ## A value that is built anew -/

omit [HostObject ω] in
/-- What shows a value in its name is built if the value has a shown form. -/
theorem named_eq_ok {shown? : Except Fault String} :
    shown?.map (fun _ => p) = .ok q ↔ q = p ∧ ∃ said, shown? = .ok said := by
  rcases shown? with g | said
  · simp [Except.map]
  · simp [Except.map, eq_comm]

theorem mkPure_eq_ok {v : Value ω} :
    mkPure v = .ok q ↔ q = pure v ∧ ∃ said, v.shown? = .ok said := named_eq_ok

theorem observed_bind_pure (hm : m.Upright h c T) (hk : h.Makes c k mkPure) (rounds depth : Nat) :
    (bind m k).observed (h.callbacks rounds depth) c =
      ((m.observed (h.callbacks rounds depth)).proceed fun v => do
        ((h.callbacks rounds depth).resume (← mkPure v)).upshot) c :=
  observed_bind (hm rounds depth).reporting (hk rounds depth) fun v q hq => by
    rw [(mkPure_eq_ok.1 hq).1]
    exact (reports_pure v).resume rounds depth

/-- What cannot be shown cannot be built anew: the fault of showing it is raised. -/
theorem EndsWith.bind_pure (hm : m.Upright h c T) (hk : h.Makes c k mkPure) {s : State ω σ}
    {v : Value ω} {d : Cursor ω} {g : Fault} (hv : v.shown? = .error g)
    (hends : m.EndsWith h c s (.returned (.succeeded v)) d) :
    (bind m k).EndsWith h c s (.raised g.exception) d := by
  obtain ⟨rounds, depth, t, hx, rfl⟩ := hends.exists_run
  have hfault : (mkPure v : Except Fault (Parser ω)) = .error g := by
    rw [mkPure, hv]
    rfl
  have hraised : (bind m k).observed (h.callbacks rounds depth) c s = (.raised g.exception, t) := by
    rw [observed_bind_pure hm hk, proceed, bind_apply, hx]
    simp only [hfault]
    rfl
  exact .of_run (by simp) hraised

/-- To build the value of a success anew changes nothing, except where that value has no shown form. -/
theorem bind_pure_right (hm : m.Upright h c T) (hk : h.Makes c k mkPure) (hh : h.Monotone c) :
    (bind m k).BehavesAs h c m ↔ ∀ s v d, m.EndsWith h c s (.returned (.succeeded v)) d →
      ∃ said, v.shown? = .ok said := by
  constructor
  · intro hbehaves s v d hends
    rcases hshown : v.shown? with g | said
    · have hraised := (hbehaves _ _ _).1 (hends.bind_pure hm hk hshown)
      simpa using (hraised.unique hh hends).1
    · exact ⟨said, rfl⟩
  · intro hshown
    have hP (rounds depth : Nat) : (m.observed (h.callbacks rounds depth)).Ensures c
        (fun u => ∀ v, u = .succeeded v → mkPure v = .ok (pure v)) fun _ => True := by
      refine ⟨fun {s u t} hu v hv => mkPure_eq_ok.2 ⟨rfl, ?_⟩, fun _ => trivial⟩
      subst hv
      exact hshown s v t.cursor (.of_run (by simp) hu)
    refine behavesAs_of_within (fun rounds depth => ⟨rounds, depth, ?_⟩)
      fun rounds depth => ⟨rounds, depth + 1, ?_⟩
    · refine (Within.of_eq (observed_bind_pure hm hk rounds depth)).trans ?_
      have hbuilt (v : Value ω) (hv : mkPure v = .ok (pure v)) :
          (do ((h.callbacks rounds depth).resume (← mkPure v)).upshot : Action ω σ (Upshot ω)).Within c
            (Pure.pure (.succeeded v)) := by
        simp only [hv, monadLift_ok, pure_bind]
        have hwithin := resume_within_observed hh (pure v) rounds depth
        rwa [observed_pure] at hwithin
      simpa only [proceed_succeeded] using
        (Within.refl _).proceed_of_ensures (hP rounds depth) fun v hv => hbuilt v (hv v rfl)
    · refine Within.trans ?_ (.of_eq (observed_bind_pure hm hk rounds (depth + 1)).symm)
      have hbuilt (v : Value ω) (hv : mkPure v = .ok (pure v)) :
          (Pure.pure (.succeeded v) : Action ω σ (Upshot ω)).Within c
            (do ((h.callbacks rounds (depth + 1)).resume (← mkPure v)).upshot) := by
        simp only [hv, monadLift_ok, pure_bind]
        rw [← observed_pure v]
        exact .refl ((pure v).observed (h.callbacks rounds depth))
      simpa only [proceed_succeeded] using
        (within_observed hh m (Nat.le_refl rounds) (Nat.le_succ depth)).proceed_of_ensures
          (hP rounds depth) fun v hv => hbuilt v (hv v rfl)

/-! ## The laws together -/

theorem mkBind_of_only (hp : p.declares.Only T ∨ p.declares.isUndeclared = true) (f : ω)
    (s : State ω σ) : mkBind p f c s = (.returned (bind p f), s) := by
  obtain ⟨k, hk⟩ : ∃ k, p.declares = .kind k := by
    rcases hd : p.declares with k | v
    · exact ⟨k, rfl⟩
    · rw [hd] at hp
      rcases hp with (hp | hp) | hp <;> cases hp
  unfold mkBind
  rw [hk]
  rfl

theorem mkSeq_of_only (hp : p.declares.Only T) (hq : q.declares.Only T) (s : State ω σ) :
    mkSeq p q c s = (.returned (seq p q), s) := mkSeq_returned.2 ⟨rfl, hp.joins hq, rfl⟩

/-- The laws for a first parser `m` and functions that make parsers: `f` and `g`, then `k`, which makes
`pure` of a value, and `fg`, which makes of a value what `f` makes of it, followed by `g`. The last law is
about the parsers `a`, `b` and `d`. -/
structure Sequencing (h : Host ω σ) (c : Context ω) (m a b d : Parser ω) (f g k fg : ω)
    (F : Value ω → Parser ω) : Prop where
  pure_built : ∀ v : Value ω, (∃ p, mkPure v = .ok p) ↔ ∃ said, v.shown? = .ok said
  pure_bind : ∀ v p, mkPure v = .ok p →
    ∃ q, (∀ s : State ω σ, mkBind p f c s = (.returned q, s)) ∧ q.BehavesAs h c (F v)
  bind_pure : ∃ q, (∀ s : State ω σ, mkBind m k c s = (.returned q, s)) ∧
    (q.BehavesAs h c m ↔ ∀ s v e, m.EndsWith h c s (.returned (.succeeded v)) e →
      ∃ said, v.shown? = .ok said)
  bind_bind : ∃ mf left right, (∀ s : State ω σ, mkBind m f c s = (.returned mf, s) ∧
      mkBind mf g c s = (.returned left, s) ∧ mkBind m fg c s = (.returned right, s)) ∧
    left.BehavesAs h c right
  seq_seq : ∃ ab bd left right, (∀ s : State ω σ, mkSeq a b c s = (.returned ab, s) ∧
      mkSeq ab d c s = (.returned left, s) ∧ mkSeq b d c s = (.returned bd, s) ∧
      mkSeq a bd c s = (.returned right, s)) ∧
    ∀ s x e, left.EndsWith h c s x e ↔ ∃ y, right.EndsWith h c s y e ∧ x = y.regrouped

theorem seq_seq_endsWith {a b d : Parser ω} (ha : a.Upright h c T) (hb : b.Upright h c T)
    (hd : d.Upright h c T) (s : State ω σ) (x : Answer ω (Upshot ω)) (e : Cursor ω) :
    (seq (seq a b) d).EndsWith h c s x e ↔
      ∃ y, (seq a (seq b d)).EndsWith h c s y e ∧ x = y.regrouped := by
  have hrun (rounds depth : Nat) : (seq (seq a b) d).observed (h.callbacks rounds depth) c s =
      (((seq a (seq b d)).observed (h.callbacks rounds depth) c s).1.regrouped,
        ((seq a (seq b d)).observed (h.callbacks rounds depth) c s).2) := by
    rw [observed_seq_seq ha hb hd, proceed, bind_apply]
    rcases (seq a (seq b d)).observed (h.callbacks rounds depth) c s with ⟨(v | ⟨e, pos⟩) | e | _, t⟩ <;>
      rfl
  have hfinished {y : Answer ω (Upshot ω)} : y.regrouped ≠ .exhausted ↔ y ≠ .exhausted := by
    rcases y with (v | ⟨e, pos⟩) | e | _ <;> simp [Answer.regrouped]
  constructor
  · rintro ⟨hx, rounds, depth, rfl, rfl⟩
    rw [hrun] at hx ⊢
    exact ⟨_, ⟨hfinished.1 hx, rounds, depth, rfl, rfl⟩, rfl⟩
  · rintro ⟨_, ⟨hy, rounds, depth, rfl, rfl⟩, rfl⟩
    exact ⟨hfinished.2 hy, rounds, depth, by rw [hrun], by rw [hrun]⟩

/-- The laws hold for all parsers that declare one common kind of error, or none, and keep to it. Only
where `m` succeeds with a value that cannot be shown, what builds that value anew differs from `m`. -/
theorem sequencing {m a b d : Parser ω} (hm : m.Upright h c T) (ha : a.Upright h c T)
    (hb : b.Upright h c T) (hd : d.Upright h c T) (hf : h.Makes c f fun v => .ok (F v))
    (hF : ∀ v, (F v).Upright h c T) (hg : h.Makes c g fun v => .ok (G v))
    (hG : ∀ v, (G v).Upright h c T) (hk : h.Makes c k mkPure)
    (hfg : h.Makes c fg fun v => .ok (bind (F v) g)) (hh : h.Monotone c) :
    Sequencing h c m a b d f g k fg F := by
  have hF (v : Value ω) := (hF v).reports
  have hG (v : Value ω) := (hG v).reports
  have hdm := (hm 0 0).declares
  have hda := (ha 0 0).declares
  have hdb := (hb 0 0).declares
  have hdd := (hd 0 0).declares
  refine ⟨fun v => ?_, fun v p hv => ?_, ?_, ?_, ?_⟩
  · exact ⟨fun ⟨p, hp⟩ => (mkPure_eq_ok.1 hp).2, fun hv => ⟨_, mkPure_eq_ok.2 ⟨rfl, hv⟩⟩⟩
  · obtain ⟨rfl, -⟩ := mkPure_eq_ok.1 hv
    exact ⟨_, fun _ => rfl, bind_pure_left hf hF hh v⟩
  · exact ⟨_, mkBind_of_only (.inl hdm) k, bind_pure_right hm hk hh⟩
  · have hdmf := (reports_bind hm.reports hf hF 0 0).declares
    exact ⟨_, _, _, fun s => ⟨mkBind_of_only (.inl hdm) f s, mkBind_of_only hdmf g s,
      mkBind_of_only (.inl hdm) fg s⟩, bind_bind hm.reports hf hF hg hG hfg hh⟩
  · have hdab : (seq a b).declares.Only T := hda.joined hdb
    have hdbd : (seq b d).declares.Only T := hdb.joined hdd
    exact ⟨_, _, _, _, fun s => ⟨mkSeq_of_only hda hdb s, mkSeq_of_only hdab hdd s,
      mkSeq_of_only hdb hdd s, mkSeq_of_only hda hdbd s⟩, seq_seq_endsWith ha hb hd⟩

end Parser

/-- The objects of a small host program: parsers, and functions that make them of values. -/
inductive Maker where
  | parser (p : Parser Maker)
  | pure
  /-- Makes the parser of a literal, the text of a span. -/
  | again
  /-- Does so, and once more with the span that was read. -/
  | twice

namespace Maker

instance : HostObject Maker where
  kind
    | .parser _ => .parser
    | _ => .function
  shown _ := "<function>"
  name? _ := none
  present _ := .null

def literal : Value Maker → String
  | .span s => s.text
  | _ => ""

def made : Maker → Value Maker → Except Fault (Parser Maker)
  | .parser p, _ => .ok p
  | .pure, v => Parser.mkPure v
  | .again, v => .ok (.take (literal v))
  | .twice, v => .ok (.bind (.take (literal v)) .again)

def host : Host Maker Unit where
  call _ f v := do return .host (.parser (← f.made v))
  step _ _ := return .none
  force _ _ := return .eof
  operand
    | .parser p => .parser p
    | f => .other (.host f)

variable {c : Context Maker}

theorem host_makes (f : Maker) : host.Makes c f f.made := by
  intro rounds depth v
  have hcall : (host.callbacks rounds depth).call f v = host.call (fun _ => Action.exhausted) f v := by
    cases depth <;> rfl
  have hoperand : (host.callbacks rounds depth).operand = host.operand := by
    cases depth <;> rfl
  rw [hcall, hoperand]
  change (do (Operand.ofValue host.operand (← (do return .host (.parser (← f.made v))))).toParser none :
    Action Maker Unit (Parser Maker)) c = _
  rcases f.made v with g | p <;> rfl

theorem host_monotone : host.Monotone c :=
  ⟨fun _ _ _ => .refl _, fun _ _ => .refl _, fun _ _ => .refl _⟩

end Maker

namespace Parser

/-- A literal that is read and then required again, and three parts of which the second cannot fail. -/
theorem sequencing_again :
    let c : Context Maker := ⟨.empty, {}, .warning⟩
    let again (v : Value Maker) : Parser Maker := .take (Maker.literal v)
    let h : Host Maker Unit := Maker.host
    (∀ literal, (take literal).Upright h c .takeError) ∧ whitespace.Upright h c .takeError ∧
      h.Makes c .again (fun v => .ok (again v)) ∧ h.Makes c .pure mkPure ∧
      h.Makes c .twice (fun v => .ok (bind (again v) .again)) ∧ h.Monotone c ∧
      Sequencing h c (take "x") (take "a") whitespace (take "b") .again .again .pure .twice again := by
  intro c again h
  have htake (literal : String) : (take literal).Upright h c .takeError :=
    fun _ _ => faithful_take literal
  have hblank : whitespace.Upright h c .takeError := fun _ _ => faithful_whitespace
  have hagain : h.Makes c .again fun v => .ok (again v) := Maker.host_makes .again
  have htwice : h.Makes c .twice fun v => .ok (bind (again v) .again) := Maker.host_makes .twice
  have hpure : h.Makes c .pure mkPure := Maker.host_makes .pure
  exact ⟨htake, hblank, hagain, hpure, htwice, Maker.host_monotone,
    sequencing (htake "x") (htake "a") hblank (htake "b") hagain (fun _ => htake _) hagain
      (fun _ => htake _) hpure htwice Maker.host_monotone⟩

/-- The least number that has no shown form can be the default of an option, but nothing can go on to
build it. -/
theorem bind_pure_raises :
    let c : Context Maker := ⟨.empty, {}, .warning⟩
    let s : State Maker Unit := ⟨.ofList [], [], ()⟩
    let v : Value Maker := .int Numeral.writeLimit
    let m : Parser Maker := .option v .nextChar
    m.Upright Maker.host c .takeError ∧ Maker.host.Makes c .pure mkPure ∧
      m.EndsWith Maker.host c s (.returned (.succeeded v)) s.cursor ∧
      (bind m .pure).EndsWith Maker.host c s (.raised Fault.tooManyDigits.exception) s.cursor ∧
      ¬ (bind m .pure).BehavesAs Maker.host c m := by
  intro c s v m
  have hm : m.Upright Maker.host c .takeError := fun _ _ => faithful_nextChar.option v
  have hpure : Maker.host.Makes c .pure mkPure := Maker.host_makes .pure
  have hends : m.EndsWith Maker.host c s (.returned (.succeeded v)) s.cursor :=
    ⟨by simp, 0, 0, rfl, rfl⟩
  have hraises := hends.bind_pure hm hpure Value.shown?_writeLimit
  refine ⟨hm, hpure, hends, hraises, fun hbehaves => ?_⟩
  simpa using (((hbehaves _ _ _).1 hraises).unique Maker.host_monotone hends).1

end Parser

end ParserAlgebra
