import ParserAlgebra.Proofs.AssignmentParts
import ParserAlgebra.Proofs.Combinators
import ParserAlgebra.Proofs.Conversions
import ParserAlgebra.Proofs.Repetition
import ParserAlgebra.Proofs.Steps

/-!
# What a combinator declares is true

A combinator that joins or converts errors looks at every failure of its parts, so what it declares
holds also when the parts do not keep what they declare (`Parser.Guarded.truthful`). Nothing is
asked of the parts or of the functions of the host program; of the conversions only that what they
return is of the kind they convert into.

There are two ways out (`Parser.untruthful_of_liars`). An infallible part is reported with its error, and
that error may have no shown form. And an object that is a failure and counts as a success is handed on.
-/

namespace ParserAlgebra

variable {ω σ : Type} [HostObject ω] {cb : Callbacks ω σ} {c : Context ω}

/-- The conversion that is found for errors of a kind, where `d` is declared. -/
def Registry.route? (r : Registry ω) (source : Kind) :
    Declared ω → Except Fault (Option (Conversion ω))
  | .kind t => .ok (r.find? source t)
  | .plain v => r.stray? source v

/-- What a conversion into `d` returns is of the kind `d`. -/
def AimsAt (cb : Callbacks ω σ) (c : Context ω) (d : Declared ω) : Prop :=
  ∀ (e : Value ω) (conv : Conversion ω), c.registry.route? e.kindOf d = .ok (some conv) →
    (Conversion.apply cb d e conv).Ensures c d.Admits fun _ => True

/-- What a conversion returns is of the kind that it converts into. -/
def ConversionsAim (cb : Callbacks ω σ) (c : Context ω) : Prop :=
  ∀ (e : Value ω) (d : Declared ω) (conv : Conversion ω),
    c.registry.route? e.kindOf d = .ok (some conv) →
      (Conversion.apply cb d e conv).Ensures c d.Admits fun _ => True

/-- An outcome that is a failure has an error that `d` admits. What counts as a success is none. -/
def Outcome.Covered (d : Declared ω) (res : Outcome ω) : Prop :=
  res.toValue.isA .err = true →
    res.succeeded = .ok true ∨ ∃ e pos, res = .err e pos ∧ d.Admits e

theorem Outcome.covered_of_succeeded {d : Declared ω} (res : Outcome ω)
    (h : res.succeeded = .ok true) : res.Covered d := fun _ => .inl h

theorem Outcome.covered_err {d : Declared ω} {e : Value ω} (h : d.Admits e) (pos : Value ω) :
    (err e pos).Covered d := fun _ => .inr ⟨e, pos, rfl, h⟩

namespace Parser

open ParserAlgebra.Action (Ensures)

variable {p q : Parser ω} {d : Declared ω} {e : Value ω} {s t : State ω σ}

theorem coerce_admits (hc : AimsAt cb c d) (e : Value ω) :
    (Conversion.coerce cb e d).Ensures c d.Admits fun _ => True := by
  by_cases ha : d.Admits e
  · rw [Conversion.coerce_of_admits ha]
    exact .pure ha
  · rcases d with k | v
    · rcases hf : c.registry.find? e.kindOf k with _ | conv
      · exact (Conversion.ensures_coerce_of_none ha hf).mono (fun _ h => h.elim) fun _ h => h
      · exact Conversion.ensures_coerce_of_find? ha hf (hc e conv (congrArg Except.ok hf))
    · unfold Conversion.coerce
      rw [if_neg (by simp [Declared.isUndeclared])]
      rcases hv : (Declared.plain v : Declared ω).holds? e.kindOf with _ | _ | _
      · exact .fault trivial
      · refine .bind .context fun _ hd => ?_
        rw [hd]
        rcases hs : c.registry.stray? e.kindOf v with f | _ | conv
        · exact .fault trivial
        · exact .fault trivial
        · exact hc e conv hs
      · exact .pure (.inr hv)

theorem retarget_covered (hc : AimsAt cb c d) (name : String) (source : Declared ω)
    (res : Outcome ω) :
    (retarget cb name source d res).Ensures c (Outcome.Covered d) fun _ => True := by
  unfold retarget
  refine .bind (.any _) fun k _ => ?_
  split
  · refine .bind (.any _) fun e _ => ?_
    refine .bind (.any _) fun said _ => ?_
    exact .fault trivial
  · refine .bind (.any _) fun e _ => ?_
    refine .bind (coerce_admits hc e) fun v hv => ?_
    refine .bind (.any _) fun x _ => ?_
    exact .pure (Outcome.covered_err hv x)

theorem refined_covered (hc : AimsAt cb c d) (w : Value ω) :
    (refined cb d w).Ensures c (Outcome.Covered d) fun _ => True := by
  unfold refined
  split
  · refine .bind (.any _) fun e _ => ?_
    refine .bind (coerce_admits hc e) fun v hv => ?_
    refine .bind (.any _) fun x _ => ?_
    split
    · exact .bind .save fun m _ => .pure (Outcome.covered_err hv _)
    · exact .pure (Outcome.covered_err hv _)
  · next herr =>
    split
    · exact .pure fun h => absurd (by simpa using h) herr
    · exact .pure (Outcome.covered_of_succeeded _ rfl)

/-- The parsers whose outermost combinator converts errors, or hands on the outcome of such a
parser. -/
inductive Guarded : Parser ω → Prop
  | seq (p q : Parser ω) : Guarded (seq p q)
  | bind (p : Parser ω) (next : ω) : Guarded (bind p next)
  | refine (p : Parser ω) (f : ω) (err : Declared ω) : Guarded (refine p f err)
  | convert (p : Parser ω) (target : Declared ω) : Guarded (convert p target)
  | alt (p q : Parser ω) : Guarded (alt p q)
  | map {p : Parser ω} (hp : Guarded p) (f : Mapping ω) : Guarded (map p f)
  | rewind {p : Parser ω} (hp : Guarded p) : Guarded (rewind p)
  | sepBy1 {p : Parser ω} (hp : Guarded p) (q : Parser ω) : Guarded (sepBy1 p q)
  | traced {p : Parser ω} (label : String) (hp : Guarded p) : Guarded (traced label p)

theorem Guarded.covered_of_aimsAt (hc : AimsAt cb c p.declares) (hp : Guarded p) :
    (p.run cb).Ensures c (Outcome.Covered p.declares) fun _ => True := by
  have hok {d : Declared ω} (res : Outcome ω) : res.succeeded = .ok true → res.Covered d :=
    res.covered_of_succeeded
  induction hp with
  | seq p q =>
    exact ensures_seq lenient_any hok (.any _) (.any _) (fun a _ _ => retarget_covered hc ..)
      fun b _ _ => retarget_covered hc ..
  | bind p next =>
    exact ensures_bind lenient_any hok (.any _) (fun _ => .any _) (fun _ _ _ => trivial)
      (fun _ => .any _) (fun a _ _ => retarget_covered hc ..) fun q b _ _ => retarget_covered hc ..
  | refine p f err =>
    refine ensures_refine lenient_any lenient_any (.any _) (fun _ => .any _)
      (fun _ _ _ => trivial) (fun e _ _ => ?_) (fun w _ => refined_covered hc ..)
      fun a _ _ => retarget_covered hc ..
    exact (coerce_admits hc e).mono (fun v hv m => Outcome.covered_err hv _) fun _ h => h
  | convert p target =>
    exact ensures_convert lenient_any hok (.any _) fun a _ _ => retarget_covered hc ..
  | alt p q =>
    exact ensures_alt lenient_any hok (.any _) (.any _) fun b _ _ => retarget_covered hc ..
  | map _ f ih => exact ensures_map lenient_any hok (ih hc) (fun _ => .any _) fun _ h _ => h
  | rewind _ ih => exact ensures_rewind lenient_any hok (ih hc) fun _ h _ => h
  | sepBy1 _ q ih =>
    exact ensures_sepBy1 lenient_any hok (fun _ => trivial) (ih hc) (.any _) fun _ h _ => h
  | traced label _ ih => exact ensures_traced lenient_any hok (ih hc) fun _ h _ => h

theorem Guarded.covered (hc : ConversionsAim cb c) (hp : Guarded p) :
    (p.run cb).Ensures c (Outcome.Covered p.declares) fun _ => True :=
  hp.covered_of_aimsAt fun e => hc e _

/-! ## What cannot be converted -/

/-- The parser, which declares the kind `k`, fails with the error `e` and leaves the state `t`. -/
def FailsFrom (cb : Callbacks ω σ) (c : Context ω) (p : Parser ω) (s : State ω σ) (k : Kind)
    (e : Value ω) (t : State ω σ) : Prop :=
  ∃ a, p.declares = .kind k ∧ p.run cb c s = (.returned a, t) ∧ a.succeeded = .ok false ∧
    a.error = .ok e

/-- From `s` the run of a parser meets the failure `e` of a part that declares the kind `k`. A
function that may fail declares nothing here. -/
inductive Meets (cb : Callbacks ω σ) (c : Context ω) :
    Parser ω → State ω σ → Kind → Value ω → Prop
  | seqFirst {p q s k e t} (h : FailsFrom cb c p s k e t) : Meets cb c (seq p q) s k e
  | seqSecond {p q s a t k e u} (h : p.run cb c s = (.returned a, t))
      (ha : a.succeeded = .ok true) (hq : FailsFrom cb c q t k e u) : Meets cb c (seq p q) s k e
  | bindFirst {p next s k e t} (h : FailsFrom cb c p s k e t) : Meets cb c (bind p next) s k e
  | bindSecond {p next s a t v w t' q b k e u} (h : p.run cb c s = (.returned a, t))
      (ha : a.succeeded = .ok true) (hv : a.value = .ok v)
      (hw : cb.call next v c t = (.returned w, t'))
      (hq : (Operand.ofValue cb.operand w).toParser none = .ok q) (hd : q.declares = .kind k)
      (ho : cb.resume q c t' = (.returned b, u)) (hb : b.succeeded = .ok false)
      (he : b.error = .ok e) : Meets cb c (bind p next) s k e
  | refineFirst {p f err s k e t} (h : FailsFrom cb c p s k e t) :
      Meets cb c (refine p f err) s k e
  | refineRaised {p f err s a t v e u} (h : p.run cb c s = (.returned a, t))
      (ha : a.succeeded = .ok true) (hv : a.value = .ok v)
      (hf : cb.call f v c t = (.raised e, u)) (hc : err.catches e.kindOf = true) :
      Meets cb c (refine p f err) s .object e
  | refineReturned {p f err s a t v w e u} (h : p.run cb c s = (.returned a, t))
      (ha : a.succeeded = .ok true) (hv : a.value = .ok v)
      (hf : cb.call f v c t = (.returned w, u)) (hw : w.isA .err = true)
      (he : w.get .error = .ok e) : Meets cb c (refine p f err) s .object e
  | convert {p target s k e t} (h : FailsFrom cb c p s k e t) : Meets cb c (convert p target) s k e
  | alt {p q s a t k e u} (h : p.run cb c s = (.returned a, t)) (ha : a.succeeded = .ok false)
      (hq : FailsFrom cb c q (t.backTo s.cursor.toMark) k e u) : Meets cb c (alt p q) s k e
  | map {p f s k e} (h : Meets cb c p s k e) : Meets cb c (map p f) s k e
  | rewind {p s k e} (h : Meets cb c p s k e) : Meets cb c (rewind p) s k e
  | sepBy1 {p q s k e} (h : Meets cb c p s k e) : Meets cb c (sepBy1 p q) s k e
  | traced {label p s t k e} (ht : runTrace label c s = (.returned (), t))
      (h : Meets cb c p t k e) : Meets cb c (traced label p) s k e

/-- The error is not of the declared kind, and no conversion leads there. -/
def Unconvertible (c : Context ω) (d : Declared ω) (e : Value ω) : Prop :=
  ∃ k, d = .kind k ∧ ¬ d.Admits e ∧ c.registry.find? e.kindOf k = none

theorem coerce_breach (h : Unconvertible c d e) :
    ∃ x t, Conversion.coerce cb e d c s = (.raised x, t) ∧ x.Breach := by
  obtain ⟨k, rfl, ha, hf⟩ := h
  obtain ⟨t, ht⟩ : ∃ t, Conversion.coerce cb e (.kind k) c s = (.raised _, t) :=
    Conversion.coerce_of_find?_none ha hf
  exact ⟨_, t, ht, .inl rfl⟩

/-- The exception `x` is raised for the error `e` of a part that declares the kind `k`. It is a breach; but a part
that was declared infallible is reported with its error, and then it may be the fault of showing that. -/
def BreachOf (k : Kind) (e x : Value ω) : Prop :=
  x.Breach ∨ k.isInfallible = true ∧ ∃ f, e.shown? = .error f ∧ x = f.exception

theorem retarget_unshown {name : String} {k : Kind} {res : Outcome ω} {f : Fault}
    (hk : k.isInfallible = true) (he : res.error = .ok e) (hf : e.shown? = .error f) :
    retarget cb name (.kind k) d res c s = (.raised f.exception, s) := by
  simp [retarget, Declared.kind?, hk, he, hf, Action.bind_apply]

theorem retarget_breachOf {name : String} {k : Kind} {res : Outcome ω} (he : res.error = .ok e)
    (h : k.isInfallible = true ∨ Unconvertible c d e) :
    ∃ x t, retarget cb name (.kind k) d res c s = (.raised x, t) ∧ BreachOf k e x := by
  rcases hk : k.isInfallible with _ | _
  · rw [retarget_of_fallible hk he]
    obtain ⟨x, t, hx, hb⟩ : ∃ x t, Conversion.coerce cb e d c s = (.raised x, t) ∧ x.Breach :=
      coerce_breach (h.resolve_left (by simp [hk]))
    exact ⟨x, t, Action.bind_raised.2 (.inl hx), .inl hb⟩
  · rcases hs : e.shown? with f | said
    · exact ⟨f.exception, s, retarget_unshown hk he hs, .inr ⟨hk, f, hs, rfl⟩⟩
    · exact ⟨_, s, retarget_of_infallible hk he hs, .inl (.inr rfl)⟩

theorem refined_breach {w : Value ω} (hw : w.isA .err = true) (he : w.get .error = .ok e)
    (h : Unconvertible c d e) : ∃ x t, refined cb d w c s = (.raised x, t) ∧ x.Breach := by
  obtain ⟨x, t, hx, hb⟩ : ∃ x t, Conversion.coerce cb e d c s = (.raised x, t) ∧ x.Breach :=
    coerce_breach h
  refine ⟨x, t, ?_, hb⟩
  unfold refined
  rw [if_pos hw, he]
  exact Action.bind_raised.2 (.inr ⟨e, s, rfl, Action.bind_raised.2 (.inl hx)⟩)

/-- A failure of a part that was declared infallible, and one whose error cannot be converted, are not
returned but reported. -/
theorem Meets.raised {k : Kind} (h : Meets cb c p s k e)
    (hu : k.isInfallible = true ∨ Unconvertible c p.declares e) :
    ∃ x t, p.run cb c s = (.raised x, t) ∧ BreachOf k e x := by
  have hobj : Kind.object.isInfallible = false := by decide
  induction h with
  | seqFirst h =>
    obtain ⟨a, hd, hr, ha, hae⟩ := h
    rw [run_seq_of_failed hr ha, hd]
    exact retarget_breachOf hae hu
  | seqSecond hr ha hq =>
    obtain ⟨b, hd, hr', hb, hbe⟩ := hq
    rw [run_seq_of_second_failed hr ha hr' hb, hd]
    exact retarget_breachOf hbe hu
  | bindFirst h =>
    obtain ⟨a, hd, hr, ha, hae⟩ := h
    rw [run_bind_of_failed hr ha, hd]
    exact retarget_breachOf hae hu
  | bindSecond hr ha hv hw hq hd ho hb hbe =>
    rw [run_bind_of_second_failed hr ha hv hw hq ho hb, hd]
    exact retarget_breachOf hbe hu
  | refineFirst h =>
    obtain ⟨a, hd, hr, ha, hae⟩ := h
    rw [run_refine_of_failed hr ha, hd]
    exact retarget_breachOf hae hu
  | refineRaised hr ha hv hf hc =>
    rw [run_refine_of_raised hr ha hv hf hc]
    obtain ⟨x, t, hx, hb⟩ := coerce_breach (hu.resolve_left (by simp [hobj]))
    exact ⟨x, t, Action.bind_raised.2 (.inl hx), .inl hb⟩
  | refineReturned hr ha hv hf hw hwe =>
    rw [run_refine_of_returned hr ha hv hf]
    obtain ⟨x, t, hx, hb⟩ := refined_breach hw hwe (hu.resolve_left (by simp [hobj]))
    exact ⟨x, t, hx, .inl hb⟩
  | convert h =>
    obtain ⟨a, hd, hr, ha, hae⟩ := h
    rw [run_convert_of_failed hr ha, hd]
    exact retarget_breachOf hae hu
  | alt hr ha hq =>
    obtain ⟨b, hd, hr', hb, hbe⟩ := hq
    rw [run_alt_of_both_failed hr ha hr' hb, hd]
    exact retarget_breachOf hbe hu
  | map _ ih =>
    obtain ⟨x, t, hx, hb⟩ := ih hu
    exact ⟨x, t, run_map_of_raised hx, hb⟩
  | rewind _ ih =>
    obtain ⟨x, t, hx, hb⟩ := ih hu
    exact ⟨x, t, run_rewind_of_raised hx, hb⟩
  | sepBy1 _ ih =>
    obtain ⟨x, t, hx, hb⟩ := ih hu
    exact ⟨x, t, run_sepBy1_of_raised hx, hb⟩
  | traced ht _ ih =>
    obtain ⟨x, t, hx, hb⟩ := ih hu
    exact ⟨x, t, run_traced_of_raised hx ht, hb⟩

end Parser

/-! ## Every run -/

theorem Assignment.conversionsAim {cb : Callbacks Function Unit} {settings : Settings Function}
    {threshold : Level} : ConversionsAim cb ⟨registry, settings, threshold⟩ := by
  rintro e (t | v) conv h
  · obtain ⟨rfl, rfl⟩ := find?_registry (Except.ok.inj h)
    obtain ⟨v, hv, hI⟩ := wrap_failed e
    rw [Conversion.apply, hv]
    exact .pure (Declared.admits_kind.2 (.inr hI.isA))
  · exact absurd h (Registry.stray?_of_nil rfl _ v conv)

namespace Parser

variable {p : Parser ω}

/-- What a parser declares holds of its run from `s`. An error that is returned with a failure is of the
declared kind, unless the failure counts as a success and is handed on as one. A failure that is met and
cannot be made so is raised: as a breach, unless the error of a part that was declared infallible cannot be
shown. -/
structure Truthful (cb : Callbacks ω σ) (c : Context ω) (p : Parser ω) (s : State ω σ) : Prop where
  returned : ∀ res t, p.run cb c s = (.returned res, t) → res.toValue.isA .err = true →
    res.succeeded = .ok true ∨ ∃ e pos, res = .err e pos ∧ p.declares.Admits e
  raised : ∀ k e, Meets cb c p s k e → k.isInfallible = true ∨ Unconvertible c p.declares e →
    ∃ x t, p.run cb c s = (.raised x, t) ∧
      (x.kindOf = .conversionError ∨ x.kindOf = .infallibleViolation ∨
        k.isInfallible = true ∧ ∃ f, e.shown? = .error f ∧ x = f.exception)

/-- What a combinator declares is true, whatever its parts and the functions of the host program
do. -/
theorem Guarded.truthful (hc : ConversionsAim cb c) (hp : Guarded p) (s : State ω σ) :
    Truthful cb c p s where
  returned _ _ hrun := (hp.covered hc).returned hrun
  raised _ _ hm hu := by
    obtain ⟨x, t, hx, hbreach⟩ := hm.raised hu
    exact ⟨x, t, hx, or_assoc.1 hbreach⟩

/-- A part that fails with the error of an assignment although it declares another. -/
theorem truthful_of_liar :
    let cb := Assignment.host.callbacks 3 1
    let c : Context Assignment.Function := ⟨Assignment.registry, {}, .warning⟩
    let liar : Parser Assignment.Function := .function "liar" (.kind .takeError) .assignment
    let p : Parser Assignment.Function := .rewind (.map (.seq liar .whitespace) .first)
    ConversionsAim cb c ∧ Guarded p ∧ Truthful cb c p ⟨.ofList ['=', '1'], [], ()⟩ :=
  ⟨Assignment.conversionsAim, .rewind (.map (.seq ..) _),
    Guarded.truthful Assignment.conversionsAim (.rewind (.map (.seq ..) _)) _⟩

/-- Of a part that was declared infallible and fails with a number that is too long to be written this fault is
raised. A failure that is a number other than zero counts as a success, and is handed on with its error. -/
theorem untruthful_of_liars :
    let cb (v : Value Assignment.Function) : Callbacks Assignment.Function Unit :=
      { Assignment.host.callbacks 1 1 with step := fun _ => Pure.pure v }
    let c : Context Assignment.Function := ⟨Assignment.registry, {}, .warning⟩
    let s : State Assignment.Function Unit := ⟨.ofList [], [], ()⟩
    let long : Value Assignment.Function := .err (.int Numeral.writeLimit) .none
    let first : Parser Assignment.Function :=
      .seq (.function "liar" (.kind .infallible) .assignment) (.pure (.int 1))
    let kind : Kind := .mk "TE" 1 [.int, .err]
    let second : Parser Assignment.Function :=
      .convert (.function "liar" .undeclared .assignment) (.kind .wordError)
    (∀ v, ConversionsAim (cb v) c) ∧ Guarded first ∧ Guarded second ∧
      first.run (cb long) c s = (.raised Fault.tooManyDigits.exception, s) ∧
      (Fault.tooManyDigits.exception : Value Assignment.Function).kindOf = .valueError ∧
      Kind.derive? "TE" 1 [.int, .err] = some kind ∧
      ∃ v res, Value.construct kind [.str "5", .int 10] = .ok v ∧
        second.run (cb v) c s = (.returned res, s) ∧ res.toValue.isA .err = true ∧
        res.error = .ok (.str "5") ∧ ¬ second.declares.Admits (.str "5") := by
  intro cb c s long first kind second
  refine ⟨fun v => Assignment.conversionsAim, .seq .., .convert .., ?_, rfl, rfl, _, _, rfl, rfl, rfl,
    rfl, ?_⟩
  · have hfailed (e : Value Assignment.Function) :
        (function "liar" (.kind .infallible) .assignment : Parser Assignment.Function).run
          (cb (.err e .none)) c s = (.returned (.err e (.int 0)), s) := rfl
    rw [run_seq_of_failed (hfailed _) rfl]
    exact retarget_unshown (by decide) rfl Value.shown?_writeLimit
  · change ¬ (Declared.kind .wordError : Declared Assignment.Function).Admits (.str "5")
    rw [Declared.admits_kind]
    decide

end Parser

end ParserAlgebra
