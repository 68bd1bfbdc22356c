import ParserAlgebra.Proofs.Builtins
import ParserAlgebra.Proofs.Distributing
import ParserAlgebra.Proofs.Finishing

/-!
# What is observed of a run

An outcome is asked whether it is a success, and then for its value, or for its error and the place where
that is reported. What comes of it is the upshot of the run (`Parser.observed`). Two parsers behave alike if
wherever one of them ends, given rounds and depth enough, the other one ends with the same upshot, or the
same exception, and with the cursor at the same place (`Parser.BehavesAs`).

The parts of a sequence or of a choice are honest if each declares one common kind of error, or that it
does not fail, and keeps to it (`Parser.Faithful`). Then no error is converted on the way, and the upshot of
the whole follows from those of its parts alone.
-/

namespace ParserAlgebra

variable {ω σ τ α β : Type} {c : Context ω}

/-- How a run went, as far as it is asked. -/
inductive Upshot (ω : Type) where
  | succeeded (value : Value ω)
  | failed (error pos : Value ω)

theorem Answer.Relates.eq {x y : Answer ω α} (h : x.Relates Eq y) : x = y := by
  cases h with
  | returned h => rw [h]
  | raised e => rfl
  | exhausted => rfl

/-! ## Upshots one after the other -/

namespace Action

theorem bind_congr_of_ensures {P : α → Prop} {R : Value ω → Prop} {x : Action ω σ α}
    {f g : α → Action ω σ β} (hx : x.Ensures c P R) (h : ∀ a, P a → f a c = g a c) :
    (x >>= f) c = (x >>= g) c := by
  funext s
  rw [bind_apply, bind_apply]
  rcases hr : x c s with ⟨a | e | _, t⟩
  · exact congrFun (h a (hx.returned hr)) t
  · rfl
  · rfl

theorem bind_congr_left {x y : Action ω σ α} {f : α → Action ω σ β} (h : x c = y c) :
    (x >>= f) c = (y >>= f) c := by
  funext s
  rw [bind_apply, bind_apply, h]

/-- Goes on with the value of a success, and hands a failure on. -/
def proceed (x : Action ω σ (Upshot ω)) (k : Value ω → Action ω σ (Upshot ω)) :
    Action ω σ (Upshot ω) := do
  match ← x with
  | .succeeded v => k v
  | .failed e pos => return .failed e pos

/-- Takes a failure back to a mark. -/
def restored (m : Mark ω) : Upshot ω → Action ω σ (Upshot ω)
  | .succeeded v => return .succeeded v
  | .failed e pos => do
    rewindTo m
    return .failed e pos

/-- Takes a failure back to the start. -/
def restoring (x : Action ω σ (Upshot ω)) : Action ω σ (Upshot ω) := do
  let m ← save
  restored m (← x)

/-- In place of a failure, another attempt from the start. -/
def otherwise (x y : Action ω σ (Upshot ω)) : Action ω σ (Upshot ω) := do
  let m ← save
  match ← x with
  | .succeeded v => return .succeeded v
  | .failed _ _ => do
    rewindTo m
    y.restoring

variable {x y z : Action ω σ (Upshot ω)} {k l : Value ω → Action ω σ (Upshot ω)}

theorem rewindTo_restoring (m : Mark ω) (x : Action ω σ (Upshot ω)) :
    (do rewindTo m; x.restoring) = (do rewindTo m; restored m (← x) : Action ω σ (Upshot ω)) := rfl

theorem succeeded_proceed (v : Value ω) (k : Value ω → Action ω σ (Upshot ω)) :
    (Pure.pure (.succeeded v) : Action ω σ (Upshot ω)).proceed k = k v := rfl

theorem proceed_succeeded (x : Action ω σ (Upshot ω)) :
    x.proceed (fun v => Pure.pure (.succeeded v)) = x := by
  conv => rhs; rw [← bind_pure x]
  unfold proceed
  congr 1
  funext u
  cases u <;> rfl

theorem proceed_proceed (x : Action ω σ (Upshot ω)) (k l : Value ω → Action ω σ (Upshot ω)) :
    (x.proceed k).proceed l = x.proceed fun v => (k v).proceed l := by
  unfold proceed
  rw [bind_assoc]
  congr 1
  funext u
  cases u <;> rfl

theorem proceed_congr {k l : Value ω → Action ω σ (Upshot ω)} (h : x c = y c)
    (hk : ∀ v, k v c = l v c) : x.proceed k c = y.proceed l c := by
  unfold proceed
  rw [bind_congr_left h]
  refine bind_congr_of_ensures (.any y) fun u _ => ?_
  cases u with
  | succeeded v => exact hk v
  | failed e pos => rfl

theorem Within.of_eq (h : x c = y c) : x.Within c y := fun s => .inr (congrFun h s)

theorem Within.trans (hx : x.Within c y) (hy : y.Within c z) : x.Within c z := by
  intro s
  rcases hx s with h | h
  · exact .inl h
  · rw [h]
    exact hy s

theorem Within.proceed_of_ensures {P : Upshot ω → Prop} {R : Value ω → Prop} (hx : x.Within c y)
    (hP : x.Ensures c P R) (hk : ∀ v, P (.succeeded v) → (k v).Within c (l v)) :
    (x.proceed k).Within c (y.proceed l) := by
  refine hx.bind_of_ensures hP fun u hu => ?_
  cases u with
  | succeeded v => exact hk v hu
  | failed e pos => exact .refl _

theorem Within.proceed (hx : x.Within c y) (hk : ∀ v, (k v).Within c (l v)) :
    (x.proceed k).Within c (y.proceed l) := hx.proceed_of_ensures (.any x) fun v _ => hk v

/-- From one state they answer the same, and leave the cursor at the same place. -/
theorem Relates.same {x y : Action ω σ α} {view : σ → τ} (h : Relates c view Eq x y) (s : State ω σ) :
    (x c s).1 = (y c s).1 ∧ (x c s).2.cursor = (y c s).2.cursor :=
  ⟨(h s s (.refl s)).1.eq, (h s s (.refl s)).2.cursor⟩

end Action

variable [HostObject ω]

namespace Outcome

variable {res : Outcome ω} {v e pos : Value ω}

def upshot? (res : Outcome ω) : Except Fault (Upshot ω) := do
  if ← res.succeeded then return .succeeded (← res.value)
  else return .failed (← res.error) (← res.pos)

@[simp] theorem upshot?_ok (v : Value ω) : (ok v).upshot? = .ok (.succeeded v) := rfl

@[simp] theorem upshot?_err (e pos : Value ω) : (err e pos).upshot? = .ok (.failed e pos) := rfl

theorem upshot?_of_succeeded (h : res.succeeded = .ok true) (hv : res.value = .ok v) :
    res.upshot? = .ok (.succeeded v) := by
  unfold upshot?
  rw [h, hv]
  rfl

theorem upshot?_of_failed (h : res.succeeded = .ok false) (he : res.error = .ok e)
    (hp : res.pos = .ok pos) : res.upshot? = .ok (.failed e pos) := by
  unfold upshot?
  rw [h, he, hp]
  rfl

/-- A success that has a value, or a failure that has a place and an error that may stand where `T` is
declared; and then what declares `d` may fail. -/
inductive Told (T : Kind) (d : Declared ω) (res : Outcome ω) : Prop
  | success {v : Value ω} (h : res.succeeded = .ok true) (hv : res.value = .ok v)
  | failure {e pos : Value ω} (h : res.succeeded = .ok false) (he : res.error = .ok e)
      (hp : res.pos = .ok pos) (hd : d.isInfallible = false) (hT : (Declared.kind T).Admits e)

theorem Told.ifSucceeded {T : Kind} {d : Declared ω} {P : α → Prop} {R : Value ω → Prop}
    {x y : Action ω σ α} (h : res.Told T d)
    (hx : ∀ v, res.succeeded = .ok true → res.value = .ok v → x.Ensures c P R)
    (hy : ∀ e pos, res.error = .ok e → res.pos = .ok pos → d.isInfallible = false →
      (Declared.kind T).Admits e → y.Ensures c P R) :
    Action.Ensures c P R (do if ← res.succeeded then x else y) := by
  rcases h with ⟨h, hv⟩ | ⟨h, he, hp, hd, hT⟩
  · simpa only [h, Action.monadLift_ok, pure_bind, if_true] using hx _ h hv
  · simpa only [h, Action.monadLift_ok, pure_bind, Bool.false_eq_true, if_false] using
      hy _ _ he hp hd hT

end Outcome

/-- Runs an action and asks how it went. -/
def Action.upshot (x : Action ω σ (Outcome ω)) : Action ω σ (Upshot ω) := do (← x).upshot?

/-- Applied to a value `v`, the function returns what stands for the parser `F v`, and does nothing
else. -/
def Callbacks.Makes (cb : Callbacks ω σ) (c : Context ω) (f : ω)
    (F : Value ω → Except Fault (Parser ω)) : Prop :=
  ∀ v, (do (Operand.ofValue cb.operand (← cb.call f v)).toParser none : Action ω σ (Parser ω)) c =
    (F v : Action ω σ (Parser ω)) c

namespace Parser

open ParserAlgebra.Action

variable {cb : Callbacks ω σ} {T : Kind} {p q : Parser ω} {d target : Declared ω}

/-- Runs the parser and asks how it went. -/
def observed (cb : Callbacks ω σ) (p : Parser ω) : Action ω σ (Upshot ω) := (p.run cb).upshot

/-- A parser that declares `T`, or that it does not fail, and keeps to it. -/
structure Faithful (cb : Callbacks ω σ) (c : Context ω) (T : Kind) (p : Parser ω) : Prop where
  declares : p.declares.Only T
  told : (p.run cb).Ensures c (Outcome.Told T p.declares) fun _ => True

/-- The same of `x`, a way to run the parser; what it declares may also be left open. -/
structure Reporting (c : Context ω) (T : Kind) (x : Action ω σ (Outcome ω)) (p : Parser ω) :
    Prop where
  declares : p.declares.Only T ∨ p.declares.isUndeclared = true
  told : x.Ensures c (Outcome.Told T p.declares) fun _ => True

theorem Faithful.reporting (hp : p.Faithful cb c T) : p.Reporting c T (p.run cb) :=
  ⟨.inl hp.declares, hp.told⟩

omit [HostObject ω] in
theorem eq_kind_of_fallible (hd : d.Only T ∨ d.isUndeclared = true)
    (hi : d.isInfallible = false) : d = .kind T ∨ d = .undeclared := by
  rcases hd with (h | h) | h
  · exact .inl h
  · exact absurd (h.symm.trans hi) (by decide)
  · rcases d with k | v
    · exact .inr (congrArg _ (by simpa [Declared.isUndeclared] using h))
    · cases h

/-- The error that was declared stays as it is. -/
theorem retarget_of_told {name : String} {res : Outcome ω} {e pos : Value ω}
    (hd : d = .kind T ∨ d = .undeclared) (hi : d.isInfallible = false) (he : res.error = .ok e)
    (hp : res.pos = .ok pos) (ht : target.Admits e) :
    retarget cb name d target res = (Pure.pure (.err e pos) : Action ω σ (Outcome ω)) := by
  obtain ⟨k, rfl⟩ : ∃ k, d = .kind k := by
    rcases hd with rfl | rfl
    · exact ⟨T, rfl⟩
    · exact ⟨.object, rfl⟩
  exact retarget_of_admits hi he hp ht

section Joined

variable {d₁ d₂ : Declared ω} (h₁ : d₁.Only T) (h₂ : d₂.Only T) (hd : d = d₁ ∨ d = d₂)
  (hi : d.isInfallible = false)

include h₁ h₂ hd hi

omit [HostObject ω] in
/-- The kind that two parts declare together is the one that the failing part declares. -/
theorem joined_eq_kind : Registry.joined d₁ d₂ = d ∧ d = .kind T := by
  have hk : d = .kind T := by
    rcases hd with rfl | rfl
    · exact h₁.resolve_right (by simp [hi])
    · exact h₂.resolve_right (by simp [hi])
  refine ⟨?_, hk⟩
  unfold Registry.joined
  split
  · next hi₁ => exact hd.elim (fun hd => by simp [hd, hi₁] at hi) Eq.symm
  · next hi₁ => exact (h₁.resolve_right hi₁).trans hk.symm

omit [HostObject ω] in
theorem joined_fallible : (Registry.joined d₁ d₂).isInfallible = false := by
  rw [(joined_eq_kind h₁ h₂ hd hi).1, hi]

theorem retarget_joined {name : String} {res : Outcome ω} {e pos : Value ω}
    (he : res.error = .ok e) (hp : res.pos = .ok pos) (hT : (Declared.kind T).Admits e) :
    retarget cb name d (Registry.joined d₁ d₂) res =
      (Pure.pure (.err e pos) : Action ω σ (Outcome ω)) := by
  obtain ⟨hj, hk⟩ := joined_eq_kind h₁ h₂ hd hi
  exact retarget_of_told (.inl hk) hi he hp (by rw [hj, hk]; exact hT)

theorem ensures_retarget_joined {name : String} {res : Outcome ω} {e pos : Value ω}
    {R : Value ω → Prop} (he : res.error = .ok e) (hp : res.pos = .ok pos)
    (hT : (Declared.kind T).Admits e) : (retarget cb name d (Registry.joined d₁ d₂) res).Ensures c
      (Outcome.Told T (Registry.joined d₁ d₂)) R := by
  rw [retarget_joined h₁ h₂ hd hi he hp hT]
  exact .pure (.failure rfl rfl rfl (joined_fallible h₁ h₂ hd hi) hT)

end Joined

theorem upshot_proceed {x : Action ω σ (Outcome ω)} {k : Outcome ω → Action ω σ (Upshot ω)}
    {l : Value ω → Action ω σ (Upshot ω)} (hx : p.Reporting c T x)
    (hsuccess : ∀ a v, a.succeeded = .ok true → a.value = .ok v → k a c = l v c)
    (hfailure : ∀ a e pos, a.succeeded = .ok false → a.error = .ok e → a.pos = .ok pos →
      p.declares.isInfallible = false → (Declared.kind T).Admits e →
        k a c = (Pure.pure (.failed e pos) : Action ω σ _) c) :
    (x >>= k) c = (x.upshot.proceed l) c := by
  unfold upshot proceed
  rw [bind_assoc]
  refine bind_congr_of_ensures hx.told fun a ha => ?_
  rcases ha with ⟨h, hv⟩ | ⟨h, he, hpos, hd, hT⟩
  · rw [hsuccess a _ h hv, Outcome.upshot?_of_succeeded h hv]
    rfl
  · rw [hfailure a _ _ h he hpos hd hT, Outcome.upshot?_of_failed h he hpos]
    rfl

theorem observed_pure (v : Value ω) :
    (pure v).observed cb = (Pure.pure (.succeeded v) : Action ω σ (Upshot ω)) := by
  rw [observed, upshot, run_pure, pure_bind]
  rfl

theorem observed_fail (e : Value ω) :
    (fail e).observed cb = (do return .failed e (← save).value : Action ω σ (Upshot ω)) := by
  rw [observed, upshot, run, bind_assoc]
  rfl

section Parts

variable (hp : p.Faithful cb c T) (hq : q.Faithful cb c T)

include hp hq

theorem observed_seq :
    (seq p q).observed cb c = ((p.observed cb).proceed fun v => (q.observed cb).proceed fun w =>
      Pure.pure (.succeeded (.tuple [v, w]))) c := by
  rw [observed, upshot, run, bind_assoc]
  refine upshot_proceed hp.reporting (fun a v ha hv => ?_) fun a e pos ha he hpos hi hT => ?_
  · simp only [ha, monadLift_ok, pure_bind, if_true, bind_assoc]
    refine upshot_proceed hq.reporting (fun b w hb hw => ?_) fun b e pos hb he hpos hi hT => ?_
    · simp [hb, hv, hw]
    · simp [hb, retarget_joined hp.declares hq.declares (.inr rfl) hi he hpos hT]
  · simp [ha, retarget_joined hp.declares hq.declares (.inl rfl) hi he hpos hT]

/-- The second parser runs from where the first one began. Its own failure goes back there too. -/
theorem observed_alt :
    (alt p q).observed cb c = ((p.observed cb).otherwise (q.observed cb)) c := by
  rw [observed, upshot, run, bind_assoc]
  refine bind_congr_of_ensures (.any save) fun m _ => ?_
  rw [observed, upshot, bind_assoc, bind_assoc]
  refine bind_congr_of_ensures hp.told fun a ha => ?_
  rcases ha with ⟨ha, hv⟩ | ⟨ha, he, hpos, hi, hT⟩
  · simp [ha, Outcome.upshot?_of_succeeded ha hv]
  · simp only [ha, Outcome.upshot?_of_failed ha he hpos, monadLift_ok, pure_bind, bind_assoc,
      Bool.false_eq_true, if_false, rewindTo_restoring]
    refine bind_congr_of_ensures (.any _) fun _ _ => ?_
    rw [observed, upshot, bind_assoc]
    refine bind_congr_of_ensures hq.told fun b hb => ?_
    rcases hb with ⟨hb, hv⟩ | ⟨hb, he, hpos, hi, hT⟩
    · simp [hb, Outcome.upshot?_of_succeeded hb hv, restored]
    · simp [hb, Outcome.upshot?_of_failed hb he hpos, restored,
        retarget_joined hp.declares hq.declares (.inr rfl) hi he hpos hT]

theorem Faithful.seq : (seq p q).Faithful cb c T := by
  refine ⟨hp.declares.joined hq.declares, ?_⟩
  rw [run]
  refine .bind hp.told fun a ha => ha.ifSucceeded (fun v _ hv => ?_) fun _ _ he hpos hi hT =>
    ensures_retarget_joined hp.declares hq.declares (.inl rfl) hi he hpos hT
  refine .bind hq.told fun b hb => hb.ifSucceeded (fun w _ hw => ?_) fun _ _ he hpos hi hT =>
    ensures_retarget_joined hp.declares hq.declares (.inr rfl) hi he hpos hT
  simp only [hv, hw, monadLift_ok, pure_bind]
  exact .pure (.success rfl rfl)

theorem Faithful.alt : (alt p q).Faithful cb c T := by
  refine ⟨hp.declares.joined hq.declares, ?_⟩
  rw [run]
  refine .bind .save fun m _ => .bind hp.told fun a ha => ha.ifSucceeded
    (fun _ h hv => .pure (.success h hv)) fun _ _ _ _ _ _ => .bind (.rewindTo m) fun _ _ => ?_
  exact .bind hq.told fun b hb => hb.ifSucceeded (fun _ h hw => .pure (.success h hw))
    fun _ _ he hpos hi hT => .bind (.rewindTo m) fun _ _ =>
      ensures_retarget_joined hp.declares hq.declares (.inr rfl) hi he hpos hT

end Parts

theorem observed_rewind (hp : p.Faithful cb c T) :
    (rewind p).observed cb c = (p.observed cb).restoring c := by
  rw [observed, upshot, run, bind_assoc]
  refine bind_congr_of_ensures (.any save) fun m _ => ?_
  rw [observed, upshot, bind_assoc, bind_assoc]
  refine bind_congr_of_ensures hp.told fun a ha => ?_
  rcases ha with ⟨ha, hv⟩ | ⟨ha, he, hpos, hi, hT⟩
  · simp [ha, Outcome.upshot?_of_succeeded ha hv, restored]
  · simp [ha, Outcome.upshot?_of_failed ha he hpos, restored]

theorem Faithful.rewind (hp : p.Faithful cb c T) : (rewind p).Faithful cb c T := by
  refine ⟨hp.declares, ?_⟩
  rw [run]
  refine .bind .save fun m _ => .bind hp.told fun a ha => .ifSucceeded lenient_any
    (fun _ => .pure ha) fun _ => .bind (.rewindTo m) fun _ _ => .pure ha

theorem faithful_take (literal : String) : (take literal).Faithful cb c .takeError := by
  refine ⟨.inl rfl, ?_⟩
  rw [run]
  refine .bind .cursor fun d _ => ?_
  dsimp only
  split
  · exact .bind (.setCursor _) fun _ _ => .pure (.success rfl rfl)
  · exact .pure (.failure rfl rfl rfl rfl (Declared.admits_kind.2 (.inr (Kind.isA_refl _))))

theorem faithful_nextChar : nextChar.Faithful cb c .endOfInput := by
  refine ⟨.inl rfl, ?_⟩
  rw [run]
  refine .bind .cursor fun d _ => ?_
  split
  · exact .pure (.failure rfl rfl rfl rfl (Declared.admits_kind.2 (.inr (Kind.isA_refl _))))
  · exact .bind (.setCursor _) fun _ _ => .pure (.success rfl rfl)

theorem faithful_whitespace : whitespace.Faithful cb c T := by
  refine ⟨.inr rfl, ?_⟩
  rw [run]
  exact .bind (ensures_skipRun _) fun n _ => .pure (.success rfl rfl)

theorem faithful_pure (v : Value ω) : (pure v).Faithful cb c T := by
  refine ⟨.inr rfl, ?_⟩
  rw [run_pure]
  exact .pure (.success rfl rfl)

theorem Faithful.option (hp : p.Faithful cb c T) (default : Value ω) {k : Kind} :
    (option default p).Faithful cb c k := by
  refine ⟨.inr rfl, ?_⟩
  rw [run]
  exact .bind .save fun m _ => .bind hp.told fun a ha => ha.ifSucceeded
    (fun _ h hv => .pure (.success h hv)) fun _ _ _ _ _ _ =>
      .bind (.rewindTo m) fun _ _ => .pure (.success rfl rfl)

/-! ## Parsers that are made during the run -/

variable {f : ω} {F : Value ω → Except Fault (Parser ω)}

theorem bind_fallible (p : Parser ω) (next : ω) : (bind p next).declares.isInfallible = false := by
  rw [declares]
  split
  · rfl
  · next hi => simpa using hi

/-- Of what the second parser reports nothing is converted, nor of what the first one does. -/
theorem retarget_of_bind {name : String} {res : Outcome ω} {e pos : Value ω} {d : Declared ω}
    (hp : p.declares.Only T ∨ p.declares.isUndeclared = true)
    (hd : d.Only T ∨ d.isUndeclared = true) (hi : d.isInfallible = false)
    (he : res.error = .ok e) (hpos : res.pos = .ok pos) (hT : (Declared.kind T).Admits e) :
    retarget cb name d (if p.declares.isInfallible then .undeclared else p.declares) res =
      (Pure.pure (.err e pos) : Action ω σ (Outcome ω)) := by
  refine retarget_of_told (eq_kind_of_fallible hd hi) hi he hpos ?_
  split
  · exact .inl rfl
  · next hi =>
    rcases eq_kind_of_fallible hp (by simpa using hi) with h | h <;> rw [h]
    · exact hT
    · exact .inl rfl

theorem observed_bind (hp : p.Reporting c T (p.run cb)) (hf : cb.Makes c f F)
    (hq : ∀ v q, F v = .ok q → q.Reporting c T (cb.resume q)) :
    (bind p f).observed cb c =
      ((p.observed cb).proceed fun v => do (cb.resume (← F v)).upshot) c := by
  rw [observed, upshot, run, bind_assoc]
  refine upshot_proceed hp (fun a v ha hv => ?_) fun a e pos ha he hpos hi hT => ?_
  · simp only [ha, hv, monadLift_ok, pure_bind, if_true, bind_assoc]
    rw [← bind_assoc, bind_congr_left (hf v)]
    rcases hv' : F v with g | q
    · rfl
    · simp only [monadLift_ok, pure_bind]
      refine bind_congr_of_ensures (hq v q hv').told fun b hb => ?_
      rcases hb with ⟨hb, -⟩ | ⟨hb, he, hpos, hd, hT⟩
      · simp [hb]
      · simp [hb, retarget_of_bind hp.declares (hq v q hv').declares hd he hpos hT,
          Outcome.upshot?_of_failed hb he hpos]
  · simp [ha, retarget_of_bind hp.declares hp.declares hi he hpos hT]

theorem Callbacks.Makes.ensures (hf : cb.Makes c f F) (v : Value ω) :
    (do (Operand.ofValue cb.operand (← cb.call f v)).toParser none : Action ω σ (Parser ω)).Ensures c
      (fun q => F v = .ok q) fun _ => True := by
  refine ⟨fun {s q t} h => ?_, fun _ => trivial⟩
  rw [hf v] at h
  exact (ask_returned.1 h).1

/-- The parsers that are made report as the first one does, and so does the whole. -/
theorem reporting_bind (hp : p.Reporting c T (p.run cb)) (hf : cb.Makes c f F)
    (hq : ∀ v q, F v = .ok q → q.Reporting c T (cb.resume q)) :
    (bind p f).Reporting c T ((bind p f).run cb) := by
  have hfailed {e pos : Value ω} (hT : (Declared.kind T : Declared ω).Admits e) :
      (Outcome.err e pos).Told T (bind p f).declares :=
    .failure rfl rfl rfl (bind_fallible p f) hT
  constructor
  · rw [declares]
    split
    · exact .inr rfl
    · exact hp.declares
  · rw [run]
    refine .bind hp.told fun a ha => ha.ifSucceeded (fun v _ hv => ?_) fun _ _ he hpos hd hT => ?_
    · simp only [hv, monadLift_ok, pure_bind]
      rw [← bind_assoc]
      refine .bind (Callbacks.Makes.ensures hf _) fun q hv' => .bind (hq _ q hv').told fun b hb =>
        hb.ifSucceeded (fun _ h hw => .pure (.success h hw)) fun _ _ he hpos hd hT => ?_
      rw [retarget_of_bind hp.declares (hq _ q hv').declares hd he hpos hT]
      exact .pure (hfailed hT)
    · rw [retarget_of_bind hp.declares hp.declares hd he hpos hT]
      exact .pure (hfailed hT)

/-! ## Behaving alike -/

variable {h : Host ω σ}

/-- From the state `s` the run ends with the answer and the cursor `d`, if it is given rounds and depth
enough. -/
def EndsWith (h : Host ω σ) (c : Context ω) (p : Parser ω) (s : State ω σ)
    (answer : Answer ω (Upshot ω)) (d : Cursor ω) : Prop :=
  answer ≠ .exhausted ∧ ∃ rounds depth, (p.observed (h.callbacks rounds depth) c s).1 = answer ∧
    (p.observed (h.callbacks rounds depth) c s).2.cursor = d

/-- Wherever one of them starts and ends, the other one ends in the same way. -/
def BehavesAs (h : Host ω σ) (c : Context ω) (p q : Parser ω) : Prop :=
  ∀ s answer d, p.EndsWith h c s answer d ↔ q.EndsWith h c s answer d

theorem EndsWith.of_run {rounds depth : Nat} {s t : State ω σ} {answer : Answer ω (Upshot ω)}
    (ha : answer ≠ .exhausted)
    (hrun : p.observed (h.callbacks rounds depth) c s = (answer, t)) :
    p.EndsWith h c s answer t.cursor := ⟨ha, rounds, depth, by rw [hrun], by rw [hrun]⟩

theorem EndsWith.exists_run {s : State ω σ} {answer : Answer ω (Upshot ω)} {d : Cursor ω}
    (hp : p.EndsWith h c s answer d) : ∃ rounds depth t,
      p.observed (h.callbacks rounds depth) c s = (answer, t) ∧ t.cursor = d := by
  obtain ⟨-, rounds, depth, ha, hd⟩ := hp
  exact ⟨rounds, depth, _, Prod.ext ha rfl, hd⟩

theorem EndsWith.of_within
    (hpq : ∀ rounds depth, ∃ rounds' depth',
      (p.observed (h.callbacks rounds depth)).Within c (q.observed (h.callbacks rounds' depth')))
    {s : State ω σ} {answer : Answer ω (Upshot ω)} {d : Cursor ω}
    (hp : p.EndsWith h c s answer d) : q.EndsWith h c s answer d := by
  obtain ⟨ha, rounds, depth, rfl, rfl⟩ := hp
  obtain ⟨rounds', depth', hw⟩ := hpq rounds depth
  have heq := hw.finished ha
  exact ⟨ha, rounds', depth', congrArg Prod.fst heq, congrArg (·.2.cursor) heq⟩

/-- So do two parsers of which each finishes what the other one does, perhaps with more depth. -/
theorem behavesAs_of_within
    (hpq : ∀ rounds depth, ∃ rounds' depth',
      (p.observed (h.callbacks rounds depth)).Within c (q.observed (h.callbacks rounds' depth')))
    (hqp : ∀ rounds depth, ∃ rounds' depth',
      (q.observed (h.callbacks rounds depth)).Within c (p.observed (h.callbacks rounds' depth'))) :
    p.BehavesAs h c q := fun _ _ _ => ⟨.of_within hpq, .of_within hqp⟩

/-- So do two parsers whose runs agree with as many rounds and as much depth, but for what they write to
the log and do to the host program's own state. -/
theorem behavesAs_of_relates {view : σ → τ}
    (hpq : ∀ rounds depth, Relates c view Eq (p.observed (h.callbacks rounds depth))
      (q.observed (h.callbacks rounds depth))) : p.BehavesAs h c q := by
  intro s answer d
  have hsame (rounds depth) := (hpq rounds depth).same s
  simp only [EndsWith, hsame]

theorem within_observed (hh : h.Monotone c) (p : Parser ω) {rounds rounds' depth depth' : Nat}
    (hr : rounds ≤ rounds') (hd : depth ≤ depth') :
    (p.observed (h.callbacks rounds depth)).Within c (p.observed (h.callbacks rounds' depth')) :=
  (p.within_run (hh.callbacks hr hd)).bind fun _ => .refl _

/-- With more rounds and more depth it ends there as well. -/
theorem EndsWith.onwards (hh : h.Monotone c) {s : State ω σ} {x : Answer ω (Upshot ω)}
    {d : Cursor ω} (hx : p.EndsWith h c s x d) :
    ∃ rounds depth, ∀ rounds' depth', rounds ≤ rounds' → depth ≤ depth' →
      (p.observed (h.callbacks rounds' depth') c s).1 = x ∧
        (p.observed (h.callbacks rounds' depth') c s).2.cursor = d := by
  obtain ⟨hx, rounds, depth, rfl, rfl⟩ := hx
  refine ⟨rounds, depth, fun rounds' depth' hr hd => ?_⟩
  rw [(within_observed hh p hr hd).finished hx]
  exact ⟨rfl, rfl⟩

theorem EndsWith.unique (hh : h.Monotone c) {s : State ω σ} {x y : Answer ω (Upshot ω)}
    {d e : Cursor ω} (hx : p.EndsWith h c s x d) (hy : p.EndsWith h c s y e) : x = y ∧ d = e := by
  obtain ⟨n, m, hx⟩ := hx.onwards hh
  obtain ⟨n', m', hy⟩ := hy.onwards hh
  obtain ⟨rfl, rfl⟩ := hx _ _ (Nat.le_max_left n n') (Nat.le_max_left m m')
  exact hy _ _ (Nat.le_max_right n n') (Nat.le_max_right m m')

/-- An honest parser, however many rounds and however much depth its run is given. -/
def Upright (h : Host ω σ) (c : Context ω) (T : Kind) (p : Parser ω) : Prop :=
  ∀ rounds depth, p.Faithful (h.callbacks rounds depth) c T

end Parser

end ParserAlgebra
