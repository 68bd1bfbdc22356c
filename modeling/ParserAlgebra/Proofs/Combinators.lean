import ParserAlgebra.Proofs.Ensures

/-!
# What the combinators ensure

For each combinator: what it ensures of its outcomes when its parts ensure something of theirs. A
property `P` of outcomes that every success has is kept by a combinator that hands a failure on as
it is, and has to be shown of the converted failures where one is converted.
-/

namespace ParserAlgebra.Parser

open ParserAlgebra.Action

variable {ω σ : Type} [HostObject ω] {cb : Callbacks ω σ} {c : Context ω}
  {A B P : Outcome ω → Prop} {R S : Value ω → Prop} {p q : Parser ω}

section Pieces

theorem ensures_value (hR : Lenient R) (res : Outcome ω) :
    (liftM res.value : Action ω σ (Value ω)).Ensures c (fun _ => True) R :=
  .ask hR (res.toValue.mild_get _) fun _ _ => trivial

theorem ensures_runTrace (hR : Lenient R) (label : String) :
    (runTrace label : Action ω σ Unit).Ensures c (fun _ => True) R := by
  unfold runTrace
  refine .bind (.writes _) fun b _ => ?_
  split
  · refine .bind .cursor fun d _ => .bind .context fun _ _ => ?_
    refine .bind (P := fun _ => True) (.ask hR ?_ fun _ _ => trivial) fun _ _ => .log _ _ _
    refine mild_bind ?_ fun _ => mild_ok _
    unfold Cursor.further
    split <;> simp [Fault.isMild]
  · exact .pure trivial

theorem ensures_logShown (ch : Level.Channel) (said : String) (v : Value ω) :
    (logShown ch said v : Action ω σ Unit).Ensures c (fun _ => True) R := .note ..

theorem ensures_checkProgress (hR : Lenient R)
    (hN : ∀ pos, R (Fault.notAdvancing pos).exception) (ch : Level.Channel) (message : String)
    (m : Mark ω) :
    (checkProgress ch message m : Action ω σ Unit).Ensures c (fun _ => True) R := by
  unfold checkProgress
  refine .bind .save fun n _ => .bind (.ask hR (n.mild_equal m) fun _ _ => trivial) fun b _ => ?_
  split
  · refine .bind .context fun d _ => ?_
    refine .bind (.ask hR d.settings.checkProgress.mild_truthy fun _ _ => trivial) fun b _ => ?_
    split
    · refine .bind (.log _ _ _) fun _ _ => ?_
      exact .bind (.ask hR m.value.mild_text? fun _ _ => trivial) fun pos _ => .fault (hN pos)
    · exact .pure trivial
  · exact .pure trivial

theorem ensures_repeated (hR : Lenient R) (hN : ∀ pos, R (Fault.notAdvancing pos).exception)
    {name : String} {body : Action ω σ (Outcome ω)} (hb : body.Ensures c A R) :
    ∀ (n : Nat) (done : List (Value ω)),
      (repeated name body n done).Ensures c (fun _ => True) R
  | 0, _ => .exhausted
  | n + 1, done => by
    rw [repeated]
    refine .bind .save fun m _ => .bind hb fun res _ => .ifSucceeded hR (fun _ => ?_) fun _ => ?_
    · refine .bind (ensures_checkProgress hR hN _ _ m) fun _ _ => ?_
      exact .bind (ensures_value hR res) fun v _ => ensures_repeated hR hN hb n (v :: done)
    · exact .bind (.rewindTo m) fun _ _ => .pure trivial

theorem ensures_separated (hR : Lenient R) (hN : ∀ pos, R (Fault.notAdvancing pos).exception)
    {name : String} {item sep : Action ω σ (Outcome ω)} (hi : item.Ensures c A R)
    (hs : sep.Ensures c B R) :
    ∀ (n : Nat) (done : List (Value ω)),
      (separated name item sep n done).Ensures c (fun _ => True) R
  | 0, _ => .exhausted
  | n + 1, done => by
    have back (m : Mark ω) : Ensures c (fun _ => True) R
        (do Action.rewindTo m; return done.reverse : Action ω σ (List (Value ω))) :=
      .bind (.rewindTo m) fun _ _ => .pure trivial
    rw [separated]
    refine .bind .save fun m _ => .bind hs fun b _ => .ifSucceeded hR (fun _ => ?_) fun _ => back m
    refine .bind hi fun res _ => .ifSucceeded hR (fun _ => ?_) fun _ => back m
    refine .bind (ensures_checkProgress hR hN _ _ m) fun _ _ => ?_
    exact .bind (ensures_value hR res) fun v _ => ensures_separated hR hN hi hs n (v :: done)

theorem ensures_runSepBy1 (hR : Lenient R) (hN : ∀ pos, R (Fault.notAdvancing pos).exception)
    (hok : ∀ res : Outcome ω, res.succeeded = .ok true → P res)
    (hP : ∀ res, A res → res.succeeded = .ok false → P res)
    {name : String} {item sep : Action ω σ (Outcome ω)} (hi : item.Ensures c A R)
    (hs : sep.Ensures c B R) : (runSepBy1 cb name item sep).Ensures c P R := by
  unfold runSepBy1
  refine .bind hi fun res hA => .ifSucceeded hR (fun _ => ?_) fun h => .pure (hP res hA h)
  refine .bind (ensures_value hR res) fun v _ => ?_
  exact .bind (ensures_separated hR hN hi hs _ _) fun vs _ => .pure (hok _ rfl)

end Pieces

section Run

variable (hR : Lenient R) (hok : ∀ res : Outcome ω, res.succeeded = .ok true → P res)

include hR hok

theorem ensures_seq (hp : (p.run cb).Ensures c A R) (hq : (q.run cb).Ensures c B R)
    (h₁ : ∀ res, A res → res.succeeded = .ok false →
      (retarget cb p.name p.declares (seq p q).declares res).Ensures c P R)
    (h₂ : ∀ res, B res → res.succeeded = .ok false →
      (retarget cb q.name q.declares (seq p q).declares res).Ensures c P R) :
    ((seq p q).run cb).Ensures c P R := by
  rw [run]
  refine .bind hp fun a ha => .ifSucceeded hR (fun _ => ?_) (h₁ a ha)
  refine .bind hq fun b hb => .ifSucceeded hR (fun _ => ?_) (h₂ b hb)
  refine .bind (ensures_value hR a) fun v _ => ?_
  exact .bind (ensures_value hR b) fun w _ => .pure (hok _ rfl)

theorem ensures_bind {next : ω} {C : Parser ω → Outcome ω → Prop} (hp : (p.run cb).Ensures c A R)
    (hcall : ∀ v, (cb.call next v).Ensures c (fun _ => True) R)
    (hmake : ∀ w f, (Operand.ofValue cb.operand w).toParser none = .error f → R f.exception)
    (hres : ∀ q, (cb.resume q).Ensures c (C q) R)
    (h₁ : ∀ res, A res → res.succeeded = .ok false →
      (retarget cb p.name p.declares (bind p next).declares res).Ensures c P R)
    (h₂ : ∀ q res, C q res → res.succeeded = .ok false →
      (retarget cb q.name q.declares (bind p next).declares res).Ensures c P R) :
    ((bind p next).run cb).Ensures c P R := by
  rw [run]
  refine .bind hp fun a ha => .ifSucceeded hR (fun _ => ?_) (h₁ a ha)
  refine .bind (ensures_value hR a) fun v _ => .bind (hcall v) fun w _ => ?_
  refine .bind (P := fun _ => True) ?_ fun q _ => .bind (hres q) fun out ho => ?_
  · rcases h : (Operand.ofValue cb.operand w).toParser none with f | q
    · exact .fault (hmake w f h)
    · exact .pure trivial
  · exact .ifSucceeded hR (fun h => .pure (hok out h)) (h₂ q out ho)

theorem ensures_map {f : Mapping ω} (hp : (p.run cb).Ensures c A R)
    (hf : ∀ v, (f.apply cb v).Ensures c (fun _ => True) R)
    (hP : ∀ res, A res → res.succeeded = .ok false → P res) :
    ((map p f).run cb).Ensures c P R := by
  rw [run]
  refine .bind hp fun a ha => .ifSucceeded hR (fun _ => ?_) fun h => .pure (hP a ha h)
  refine .bind (ensures_value hR a) fun v _ => .bind (hf v) fun w _ => .pure (hok _ rfl)

omit hok in
theorem ensures_refine {f : ω} {err : Declared ω} {W : Value ω → Prop} (hS : Lenient S)
    (hp : (p.run cb).Ensures c A R) (hcall : ∀ v, (cb.call f v).Ensures c W S)
    (hpass : ∀ e, S e → err.catches e.kindOf = false → R e)
    (hraised : ∀ e, S e → err.catches e.kindOf = true →
      (Conversion.coerce cb e (refine p f err).declares).Ensures c
        (fun v => ∀ m, P (.failedAt v m)) R)
    (hreturned : ∀ w, W w → (refined cb (refine p f err).declares w).Ensures c P R)
    (h₁ : ∀ res, A res → res.succeeded = .ok false →
      (retarget cb p.name p.declares (refine p f err).declares res).Ensures c P R) :
    ((refine p f err).run cb).Ensures c P R := by
  rw [run]
  refine .bind hp fun a ha => .ifSucceeded hR (fun _ => ?_) (h₁ a ha)
  have hx : Ensures c W S (do cb.call f (← a.value) : Action ω σ (Value ω)) :=
    .bind (ensures_value hS a) fun v _ => hcall v
  refine .bind (hx.catching hpass) fun r hr => ?_
  rcases r with e | w
  · refine .bind (hraised e hr.1 hr.2) fun v hv => .bind .save fun m _ => .pure (hv m)
  · exact hreturned w hr

theorem ensures_convert {target : Declared ω} (hp : (p.run cb).Ensures c A R)
    (h₁ : ∀ res, A res → res.succeeded = .ok false →
      (retarget cb p.name p.declares target res).Ensures c P R) :
    ((convert p target).run cb).Ensures c P R := by
  rw [run]
  exact .bind hp fun a ha => .ifSucceeded hR (fun h => .pure (hok a h)) (h₁ a ha)

theorem ensures_alt (hp : (p.run cb).Ensures c A R) (hq : (q.run cb).Ensures c B R)
    (h₂ : ∀ res, B res → res.succeeded = .ok false →
      (retarget cb q.name q.declares (alt p q).declares res).Ensures c P R) :
    ((alt p q).run cb).Ensures c P R := by
  rw [run]
  refine .bind .save fun m _ => .bind hp fun a _ => .ifSucceeded hR (fun h => .pure (hok a h)) ?_
  refine fun _ => .bind (.rewindTo m) fun _ _ => .bind hq fun b hb => ?_
  refine .ifSucceeded hR (fun h => .pure (hok b h)) fun h => ?_
  exact .bind (.rewindTo m) fun _ _ => h₂ b hb h

theorem ensures_rewind (hp : (p.run cb).Ensures c A R)
    (hP : ∀ res, A res → res.succeeded = .ok false → P res) :
    ((rewind p).run cb).Ensures c P R := by
  rw [run]
  refine .bind .save fun m _ => .bind hp fun a ha => .ifSucceeded hR (fun h => .pure (hok a h)) ?_
  exact fun h => .bind (.rewindTo m) fun _ _ => .pure (hP a ha h)

theorem ensures_option {default : Value ω} (hp : (p.run cb).Ensures c A R) :
    ((option default p).run cb).Ensures c P R := by
  rw [run]
  refine .bind .save fun m _ => .bind hp fun a ha => .ifSucceeded hR (fun h => .pure (hok a h)) ?_
  exact fun _ => .bind (.rewindTo m) fun _ _ => .pure (hok _ rfl)

theorem ensures_many (hN : ∀ pos, R (Fault.notAdvancing pos).exception)
    (hp : (p.run cb).Ensures c A R) : ((many p).run cb).Ensures c P R := by
  rw [run]
  exact .bind (ensures_repeated hR hN hp _ _) fun _ _ => .pure (hok _ rfl)

theorem ensures_sepBy1 (hN : ∀ pos, R (Fault.notAdvancing pos).exception)
    (hp : (p.run cb).Ensures c A R) (hq : (q.run cb).Ensures c B R)
    (hP : ∀ res, A res → res.succeeded = .ok false → P res) :
    ((sepBy1 p q).run cb).Ensures c P R := by
  rw [run]
  exact ensures_runSepBy1 hR hN hok hP hp hq

theorem ensures_sepBy (hN : ∀ pos, R (Fault.notAdvancing pos).exception)
    (hp : (p.run cb).Ensures c A R) (hq : (q.run cb).Ensures c B R) :
    ((sepBy p q).run cb).Ensures c P R := by
  rw [run]
  have h1 : (runSepBy1 cb p.name (p.run cb) (q.run cb)).Ensures c (fun _ => True) R :=
    ensures_runSepBy1 hR hN (fun _ _ => trivial) (fun _ _ _ => trivial) hp hq
  refine .bind .save fun m _ => .bind h1 fun a _ => .ifSucceeded hR (fun h => .pure (hok a h)) ?_
  exact fun _ => .bind (.rewindTo m) fun _ _ => .pure (hok _ rfl)

theorem ensures_traced {label : String} (hp : (p.run cb).Ensures c A R)
    (hP : ∀ res, A res → res.succeeded = .ok false → P res) :
    ((traced label p).run cb).Ensures c P R := by
  rw [run]
  refine .bind (ensures_runTrace hR _) fun _ _ => .bind .save fun m _ => .bind hp fun a ha => ?_
  refine .ifSucceeded hR (fun h => ?_) fun h => ?_
  · refine .bind (ensures_value hR a) fun v _ => ?_
    exact .bind (ensures_logShown ..) fun _ _ => .pure (hok a h)
  · refine .bind (.rewindTo m) fun _ _ => .bind (ensures_runTrace hR _) fun _ _ => ?_
    refine .bind (.ask hR (a.toValue.mild_get _) fun _ _ => trivial) fun e (_ : True) => ?_
    exact .bind (ensures_logShown ..) fun _ _ => .pure (hP a ha h)

end Run

end ParserAlgebra.Parser
