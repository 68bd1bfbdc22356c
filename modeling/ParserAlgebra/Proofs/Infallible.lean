import ParserAlgebra.Proofs.Truthful

/-!
# Infallible parsers

A parser that is declared infallible is taken at its word only where it is given by the host program.
What is put together is declared infallible because its parts are, or because their errors are
converted into Infallible; then it fails only with an error that is itself of an infallible kind
(`Parser.infallible_impossible`). No such error should exist, but a kind that inherits from
Infallible after another kind of exception has instances.

A part that is declared infallible and fails is found out wherever its failure is looked at. The only
place where it is not is the first of two alternatives (`Parser.broken_found_out`).
-/

namespace ParserAlgebra

variable {ω σ : Type} [HostObject ω] {cb : Callbacks ω σ} {c : Context ω}

/-- Nothing is converted into Infallible, nor into a kind that inherits from it. -/
def Registry.SparesInfallible (r : Registry ω) : Prop :=
  ∀ source target : Kind, target.isInfallible = true → r.get? source target = none

theorem Registry.SparesInfallible.aimsAt (hr : c.registry.SparesInfallible) {d : Declared ω}
    (hd : d.isInfallible = true) : AimsAt cb c d := by
  intro e conv h
  -- There is no conversion of which anything would have to be shown.
  rcases d with k | v
  · have hnone : c.registry.find? e.kindOf k = none :=
      List.findSome?_eq_none_iff.2 fun l _ => hr l k hd
    cases hnone.symm.trans (Except.ok.inj h)
  · cases hd

theorem Declared.Admits.isInfallible {d : Declared ω} {e : Value ω} (h : d.Admits e)
    (hd : d.isInfallible = true) : e.kindOf.isInfallible = true := by
  have hobj : Kind.object.isInfallible = false := by decide
  rcases d with k | v
  · rcases Declared.admits_kind.1 h with rfl | hk
    · cases hobj.symm.trans hd
    · exact Kind.isA_trans hk hd
  · cases hd

/-- An outcome of the kind of failures that does not count as a success. -/
def Outcome.Failure (res : Outcome ω) : Prop :=
  res.toValue.isA .err = true ∧ res.succeeded ≠ .ok true

/-- If it is a failure, its error is of an infallible kind. -/
def Outcome.Impossible (res : Outcome ω) : Prop :=
  res.Failure → ∃ e pos, res = .err e pos ∧ e.kindOf.isInfallible = true

omit [HostObject ω] in
theorem Assignment.sparesInfallible : (registry : Registry ω).SparesInfallible := by
  intro source target ht
  rcases hg : (registry : Registry ω).get? source target with _ | conv
  · rfl
  · have hfound : ((registry : Registry ω).find? source target).isSome = true :=
      Registry.find?_isSome_iff.2 ⟨source, source.self_mem_lineage, by simp [hg]⟩
    obtain ⟨conv', hf⟩ := Option.isSome_iff_exists.1 hfound
    rw [(find?_registry hf).1] at ht
    exact absurd ht (by decide)

namespace Parser

variable {p q : Parser ω}

/-! ## What is declared infallible -/

/-- The part whose failures a parser hands on as they are; the parser itself if it makes or converts
what it fails with. -/
def origin : Parser ω → Parser ω
  | map p _ => p.origin
  | rewind p => p.origin
  | sepBy1 p _ => p.origin
  | traced _ p => p.origin
  | p => p

/-- What is declared is the word of the host program, which nothing checks. -/
def isGiven : Parser ω → Bool
  | function .. | mapErr .. | later .. => true
  | _ => false

/-- What is put together and declared infallible keeps what it declares, if the part whose failures
it hands on does. -/
theorem covered_of_infallible (hr : c.registry.SparesInfallible) (hd : p.declares.isInfallible = true)
    (hgiven : p.origin.isGiven = true →
      (p.origin.run cb).Ensures c (fun res => ¬ res.Failure) fun _ => True) :
    (p.run cb).Ensures c (Outcome.Covered p.declares) fun _ => True := by
  have hok {d : Declared ω} (res : Outcome ω) : res.succeeded = .ok true → res.Covered d :=
    res.covered_of_succeeded
  have given {x : Action ω σ (Outcome ω)} {d : Declared ω}
      (hx : x.Ensures c (fun res => ¬ res.Failure) fun _ => True) :
      x.Ensures c (Outcome.Covered d) fun _ => True :=
    hx.mono (fun res h he => .inl (not_not.1 fun hs => h ⟨he, hs⟩)) fun _ h => h
  -- What converts errors is true to its declaration whatever its parts do, so the induction hypothesis
  -- is needed only where a failure is handed on.
  induction p with
  | function name d step => exact given (hgiven rfl)
  | mapErr p f err => exact given (hgiven rfl)
  | later d factory => exact given (hgiven rfl)
  | nextChar => exact absurd (show Kind.endOfInput.isInfallible = true from hd) (by decide)
  | word => exact absurd (show Kind.wordError.isInfallible = true from hd) (by decide)
  | eof => exact absurd (show Kind.expectedEndOfInput.isInfallible = true from hd) (by decide)
  | take literal => exact absurd (show Kind.takeError.isInfallible = true from hd) (by decide)
  | whitespace =>
    rw [run]
    exact .bind (.any _) fun n _ => .pure (hok _ rfl)
  | pure v =>
    rw [run_pure]
    exact .pure (hok _ rfl)
  | fail e =>
    rw [run]
    refine .bind .save fun m _ => .pure (Outcome.covered_err ?_ _)
    exact Declared.admits_kind.2 (.inr e.kindOf.isA_refl)
  | seq p q => exact (Guarded.seq p q).covered_of_aimsAt (hr.aimsAt hd)
  | bind p next => exact (Guarded.bind p next).covered_of_aimsAt (hr.aimsAt hd)
  | refine p f err => exact (Guarded.refine p f err).covered_of_aimsAt (hr.aimsAt hd)
  | convert p target => exact (Guarded.convert p target).covered_of_aimsAt (hr.aimsAt hd)
  | alt p q => exact (Guarded.alt p q).covered_of_aimsAt (hr.aimsAt hd)
  | map p f ih =>
    exact ensures_map lenient_any hok (ih hd hgiven) (fun _ => .any _) fun _ h _ => h
  | rewind p ih => exact ensures_rewind lenient_any hok (ih hd hgiven) fun _ h _ => h
  | option default p => exact ensures_option lenient_any hok (.any _)
  | many p => exact ensures_many lenient_any hok (fun _ => trivial) (.any _)
  | sepBy1 p q ih =>
    exact ensures_sepBy1 lenient_any hok (fun _ => trivial) (ih hd hgiven) (.any _) fun _ h _ => h
  | sepBy p q => exact ensures_sepBy lenient_any hok (fun _ => trivial) (.any _) (.any _)
  | trace label =>
    rw [run]
    exact .bind (.any _) fun _ _ => .pure (hok _ rfl)
  | traced label p ih => exact ensures_traced lenient_any hok (ih hd hgiven) fun _ h _ => h

/-- A parser that is put together and declared infallible fails only with an error of an infallible
kind, if nothing is converted into such a kind and the part whose failures it hands on, where that is
given by the host program, never fails. Nothing is asked of the other parts. -/
theorem infallible_impossible (hr : c.registry.SparesInfallible)
    (hd : p.declares.isInfallible = true)
    (hgiven : p.origin.isGiven = true →
      (p.origin.run cb).Ensures c (fun res => ¬ res.Failure) fun _ => True) :
    (p.run cb).Ensures c Outcome.Impossible fun _ => True := by
  refine (covered_of_infallible hr hd hgiven).mono (fun res hcovered hres => ?_) fun _ h => h
  obtain ⟨e, pos, rfl, he⟩ := (hcovered hres.1).resolve_left hres.2
  exact ⟨e, pos, rfl, he.isInfallible hd⟩

/-- A deferred parser that stands for a repetition. -/
theorem infallible_impossible_later :
    let cb := Assignment.host.callbacks 3 1
    let c : Context Assignment.Function := ⟨Assignment.registry, {}, .warning⟩
    let several : Parser Assignment.Function := .later .infallible .assignment
    let p : Parser Assignment.Function := .rewind (.map several .discard)
    c.registry.SparesInfallible ∧ p.declares.isInfallible = true ∧ p.origin = several ∧
      (several.run cb).Ensures c (fun res => ¬ res.Failure) (fun _ => True) ∧
      (p.run cb).Ensures c Outcome.Impossible fun _ => True := by
  intro cb c several p
  have hd : p.declares.isInfallible = true := show Kind.infallible.isInfallible = true by decide
  have hgiven : (several.run cb).Ensures c (fun res => ¬ res.Failure) fun _ => True := by
    have hok (res : Outcome Assignment.Function) (h : res.succeeded = .ok true) : ¬ res.Failure :=
      fun hres => hres.2 h
    rw [run]
    refine .bind (P := fun q => q = Assignment.several) (.pure rfl) fun q hq => ?_
    rw [hq]
    exact ensures_many lenient_any hok (fun _ => trivial) (.any _)
  exact ⟨Assignment.sparesInfallible, hd, rfl, hgiven,
    infallible_impossible Assignment.sparesInfallible hd fun _ => hgiven⟩

/-- A kind that inherits from Infallible after another kind of exception has instances. Such an error
is returned by a parser that was converted into Infallible. -/
theorem infallible_returned :
    let kind : Kind := .mk "Impossible" 1 [.valueError, .infallible]
    Kind.derive? "Impossible" 1 [.valueError, .infallible] = some kind ∧
      ∃ e : Value Assignment.Function, Value.construct kind [.str "a"] = .ok e ∧
        let cb : Callbacks Assignment.Function Unit :=
          { Assignment.host.callbacks 1 1 with step := fun _ => Pure.pure (.err e .none) }
        let c : Context Assignment.Function := ⟨.empty, {}, .warning⟩
        let s : State Assignment.Function Unit := ⟨.ofList [], [], ()⟩
        c.registry.SparesInfallible ∧
          ∃ p, mkConvert (.function "body" .undeclared .assignment) .infallible c s =
              (.returned p, s) ∧ p.declares.isInfallible = true ∧ p.origin.isGiven = false ∧
            p.run cb c s = (.returned (.err e (.int 0)), s) := by
  refine ⟨rfl, _, rfl, fun _ _ _ => rfl, _, rfl, ?_, rfl, rfl⟩
  exact (show Kind.infallible.isInfallible = true by decide)

/-! ## What is declared infallible and fails -/

/-- From `s` a parser that is declared infallible fails with the outcome `a` and leaves `t`. -/
structure Breaks (cb : Callbacks ω σ) (c : Context ω) (p : Parser ω) (s : State ω σ)
    (a : Outcome ω) (t : State ω σ) : Prop where
  declared : p.declares.isInfallible = true
  run : p.run cb c s = (.returned a, t)
  failed : a.succeeded = .ok false

/-- In the run of a parser from `s` the part `q` breaks with the outcome `a`. The first alternative is
left out: it is a part whose failure is not looked at. -/
inductive Finds (cb : Callbacks ω σ) (c : Context ω) :
    Parser ω → State ω σ → Parser ω → Outcome ω → Prop
  | seqFirst {p q s a t} (hp : Breaks cb c p s a t) : Finds cb c (seq p q) s p a
  | seqSecond {p q s a t b u} (h : p.run cb c s = (.returned a, t)) (ha : a.succeeded = .ok true)
      (hq : Breaks cb c q t b u) : Finds cb c (seq p q) s q b
  | bindFirst {p next s a t} (hp : Breaks cb c p s a t) : Finds cb c (bind p next) s p a
  | bindSecond {p next s a t v w t' q b u} (h : p.run cb c s = (.returned a, t))
      (ha : a.succeeded = .ok true) (hv : a.value = .ok v)
      (hw : cb.call next v c t = (.returned w, t'))
      (hq : (Operand.ofValue cb.operand w).toParser none = .ok q)
      (hd : q.declares.isInfallible = true) (ho : cb.resume q c t' = (.returned b, u))
      (hb : b.succeeded = .ok false) : Finds cb c (bind p next) s q b
  | refine {p f err s a t} (hp : Breaks cb c p s a t) : Finds cb c (refine p f err) s p a
  | convert {p target s a t} (hp : Breaks cb c p s a t) : Finds cb c (convert p target) s p a
  | altSecond {p q s a t b u} (h : p.run cb c s = (.returned a, t)) (ha : a.succeeded = .ok false)
      (hq : Breaks cb c q (t.backTo s.cursor.toMark) b u) : Finds cb c (alt p q) s q b
  /-- What was chosen among before is itself a first alternative. -/
  | altFirst {p r s q a} (h : Finds cb c p s q a) : Finds cb c (alt p r) s q a
  | map {p f s q a} (h : Finds cb c p s q a) : Finds cb c (map p f) s q a

/-- The exception tells of the broken declaration, if the error of the failure can be shown. -/
def TellsOfBreak (q : Parser ω) (a : Outcome ω) (x : Value ω) : Prop :=
  ∀ e said, a.error = .ok e → e.shown? = .ok said →
    x = (Fault.infallibleFailed q.name said).exception

theorem retarget_of_broken {d : Declared ω} {a : Outcome ω} {s : State ω σ}
    (hq : q.declares.isInfallible = true) :
    ∃ x t, retarget cb q.name q.declares d a c s = (.raised x, t) ∧ TellsOfBreak q a x := by
  obtain ⟨k, hd, hk⟩ : ∃ k, q.declares = .kind k ∧ k.isInfallible = true := by
    rcases hd : q.declares with k | v
    · exact ⟨k, rfl, by rwa [hd] at hq⟩
    · rw [hd] at hq
      cases hq
  rcases he : a.error with f | e
  · refine ⟨f.exception, s, ?_, fun e said h => by cases he.symm.trans h⟩
    simp [retarget, hd, Declared.kind?, hk, he, Action.bind_apply]
  · rcases hs : e.shown? with f | said
    · refine ⟨f.exception, s, ?_, fun e' said h h' => ?_⟩
      · simp [retarget, hd, Declared.kind?, hk, he, hs, Action.bind_apply]
      · obtain rfl := Except.ok.inj (he.symm.trans h)
        cases hs.symm.trans h'
    · refine ⟨_, s, retarget_of_infallible hq he hs, fun e' said' h h' => ?_⟩
      obtain rfl := Except.ok.inj (he.symm.trans h)
      rw [Except.ok.inj (hs.symm.trans h')]

theorem Finds.raised {r : Parser ω} {s : State ω σ} {a : Outcome ω} (h : Finds cb c r s q a) :
    ∃ x t, r.run cb c s = (.raised x, t) ∧ TellsOfBreak q a x := by
  -- In every position the failure goes through `retarget`, under the name of the broken part.
  induction h with
  | seqFirst hp =>
    rw [run_seq_of_failed hp.run hp.failed]
    exact retarget_of_broken hp.declared
  | seqSecond h ha hq =>
    rw [run_seq_of_second_failed h ha hq.run hq.failed]
    exact retarget_of_broken hq.declared
  | bindFirst hp =>
    rw [run_bind_of_failed hp.run hp.failed]
    exact retarget_of_broken hp.declared
  | bindSecond h ha hv hw hq hd ho hb =>
    rw [run_bind_of_second_failed h ha hv hw hq ho hb]
    exact retarget_of_broken hd
  | refine hp =>
    rw [run_refine_of_failed hp.run hp.failed]
    exact retarget_of_broken hp.declared
  | convert hp =>
    rw [run_convert_of_failed hp.run hp.failed]
    exact retarget_of_broken hp.declared
  | altSecond h ha hq =>
    rw [run_alt_of_both_failed h ha hq.run hq.failed]
    exact retarget_of_broken hq.declared
  | altFirst _ ih =>
    obtain ⟨x, t, hx, htells⟩ := ih
    exact ⟨x, t, run_alt_of_raised hx, htells⟩
  | map _ ih =>
    obtain ⟨x, t, hx, htells⟩ := ih
    exact ⟨x, t, run_map_of_raised hx, htells⟩

/-- The failure of a part that is declared infallible raises an exception that tells of it, unless the
part is the first alternative: that one is passed over, and the success of the second decides. -/
theorem broken_found_out :
    (∀ {r q : Parser ω} {s : State ω σ} {a : Outcome ω}, Finds cb c r s q a →
      ∃ x t, r.run cb c s = (.raised x, t) ∧ TellsOfBreak q a x) ∧
    ∀ {p q : Parser ω} {s t u : State ω σ} {a b : Outcome ω}, Breaks cb c p s a t →
      q.run cb c (t.backTo s.cursor.toMark) = (.returned b, u) → b.succeeded = .ok true →
        (alt p q).run cb c s = (.returned b, u) :=
  ⟨Finds.raised, fun hp hq hb => run_alt_of_failed hp.run hp.failed hq hb⟩

/-- A part that breaks before blanks, and as an alternative to them. -/
theorem broken_found_out_liar :
    let cb : Callbacks Assignment.Function Unit :=
      { Assignment.host.callbacks 1 1 with step := fun _ => Pure.pure (.err (.str "x") .none) }
    let c : Context Assignment.Function := ⟨.empty, {}, .warning⟩
    let s : State Assignment.Function Unit := ⟨.ofList [' '], [], ()⟩
    let t : State Assignment.Function Unit := ⟨⟨⟨1, none⟩, [' ']⟩, [], ()⟩
    let liar : Parser Assignment.Function := .function "liar" .infallible .assignment
    let a : Outcome Assignment.Function := .err (.str "x") (.int 0)
    Breaks cb c liar s a s ∧
      (∃ u, (map (seq liar whitespace) .first).run cb c s =
        (.raised (Fault.infallibleFailed "liar" (quoted "x")).exception, u)) ∧
      (alt liar whitespace).run cb c s = (.returned (.ok (.int 1)), t) := by
  intro cb c s t liar a
  have hliar : Breaks cb c liar s a s :=
    ⟨show Kind.infallible.isInfallible = true by decide, rfl, rfl⟩
  have hfinds : Finds cb c (map (seq liar whitespace) .first) s liar a := .map (.seqFirst hliar)
  obtain ⟨hraised, hpassed⟩ := @broken_found_out Assignment.Function Unit _ cb c
  obtain ⟨x, u, hx, htells⟩ := hraised hfinds
  have hshown : (Value.str "x" : Value Assignment.Function).shown? = .ok (quoted "x") := by
    simp [Value.shown?]
  rw [htells _ _ rfl hshown] at hx
  exact ⟨hliar, ⟨u, hx⟩, hpassed hliar rfl rfl⟩

/-- A first alternative that is declared infallible and fails is not raised: the choice goes on and
returns what the second one makes. -/
theorem broken_passed_over :
    let cb : Callbacks Assignment.Function Unit :=
      { Assignment.host.callbacks 1 1 with step := fun _ => Pure.pure (.err (.str "x") .none) }
    let c : Context Assignment.Function := ⟨.empty, {}, .warning⟩
    let s : State Assignment.Function Unit := ⟨.ofList [], [], ()⟩
    let liar : Parser Assignment.Function := .function "liar" .infallible .assignment
    liar.declares.isInfallible = true ∧
      liar.run cb c s = (.returned (.err (.str "x") (.int 0)), s) ∧
      ∃ p, mkAlt liar (.pure (.int 1)) c s = (.returned p, s) ∧
        p.run cb c s = (.returned (.ok (.int 1)), s) :=
  ⟨show Kind.infallible.isInfallible = true by decide, rfl, _, rfl, rfl⟩

end Parser

end ParserAlgebra
