import ParserAlgebra.Proofs.Ensures

/-!
# Repetition

Both repetitions of parsers are one loop over attempts (`Parser.looped`): a body, or a separator and
then an item. A round of it either ends the loop or goes on from where the attempt has left the
cursor (`Parser.looped_round`), so a whole run is a row of attempts that succeed, each of them at
another place than where it began, and one attempt that ends it (`Parser.looped_run`). The rounds
run out exactly if there are as many attempts in a row (`Parser.looped_exhausted_iff`).
-/

namespace ParserAlgebra

variable {ω σ : Type} [HostObject ω] {c : Context ω}

/-! ## Places that count as numbers -/

/-- What is measured in some way inherits from the one kind that says so. -/
theorem Measure.isA_of_mem {k t : Kind} {m : Measure} (h : Measure.ofKind? k = some m)
    (ht : (t, m) ∈ Measure.table) : k.isA t = true := by
  have hone : ∀ e ∈ Measure.table, ∀ e' ∈ Measure.table, e.2 = e'.2 → e.1 = e'.1 := by decide
  obtain ⟨u, hmem, hu⟩ := Kind.exists_of_nearest? h
  obtain rfl : u = t := hone _ hmem _ ht rfl
  exact hu

theorem Measure.isA_int {k : Kind} (h : Measure.ofKind? k = some .number) : k.isA .int = true :=
  Measure.isA_of_mem h (by decide)

-- The limit is a number too large to be looked at, so proofs keep it behind a name.
theorem lt_writeLimit {n : Nat} (h : n ≤ Numeral.digitLimit) : n < Numeral.writeLimit := by
  unfold Numeral.writeLimit
  generalize Numeral.digitLimit = limit at h ⊢
  exact Nat.lt_of_le_of_lt h (Nat.lt_pow_self (by decide))

theorem digits?_of_lt {n : Int} (h : n.natAbs < Numeral.writeLimit) :
    digits? n = .ok (toString n) := by
  have hwrite : Numeral.write? n = some (toString n) := by
    unfold Numeral.write?
    generalize Numeral.writeLimit = limit at h ⊢
    exact if_pos h
  unfold digits?
  generalize Numeral.write? n = written at hwrite
  subst hwrite
  rfl

theorem digits?_of_le {n : Int} (h : Numeral.writeLimit ≤ n.natAbs) :
    digits? n = .error .tooManyDigits := by
  have hwrite : Numeral.write? n = none := by
    unfold Numeral.write?
    generalize Numeral.writeLimit = limit at h ⊢
    exact if_neg (Nat.not_lt.2 h)
  unfold digits?
  generalize Numeral.write? n = written at hwrite
  subst hwrite
  rfl

/-- The least number that has no shown form. -/
theorem Value.shown?_writeLimit :
    (Value.int Numeral.writeLimit : Value ω).shown? = .error .tooManyDigits := by
  rw [Value.shown?]
  exact digits?_of_le (Nat.le_of_eq (Int.natAbs_natCast _).symm)

/-- The place is told by a number, which it is compared as. -/
structure Mark.Counts (m : Mark ω) : Prop where
  toInt? : m.value.toInt? = some (m.pos : Int)
  measure : Measure.ofKind? m.value.kindOf = some .number

namespace Mark

variable {m n : Mark ω}

theorem counts_mk (pos : Nat) : Counts (⟨pos, none⟩ : Mark ω) :=
  ⟨rfl, show Measure.ofKind? .int = some .number by decide⟩

theorem text?_mk {pos : Nat} (h : pos < Numeral.writeLimit) :
    (⟨pos, none⟩ : Mark ω).value.text? = .ok (toString (pos : Int)) := by
  have hshown : (⟨pos, none⟩ : Mark ω).value.text? = (Value.int pos : Value ω).shown? := by
    simp [Value.text?]
  rw [hshown, Value.shown?]
  exact digits?_of_lt h

theorem equalBy_number (first : Bool) (v w : Value ω) :
    v.equalBy first .number w = .ok (v.toInt? == w.toInt?) := by
  cases v <;> simp [Value.equalBy, Value.equalFlat]

/-- Places that count are equal when they are one place. -/
theorem Counts.equal (hm : m.Counts) (hn : n.Counts) : m.equal n = .ok (m.pos == n.pos) := by
  have hvalue : m.value.equal n.value = .ok (m.pos == n.pos) := by
    have hmn : Comparison.known? m.value.kindOf n.value.kindOf = some .number := by
      simp [Comparison.known?, hm.measure, Measure.isA_int hn.measure]
    have hnm : Comparison.known? n.value.kindOf m.value.kindOf = some .number := by
      simp [Comparison.known?, hn.measure, Measure.isA_int hm.measure]
    have hb : (Comparison.between m.value.kindOf n.value.kindOf).1 = .number := by
      unfold Comparison.between
      split <;> simp [hmn, hnm]
    have hpos : (some (m.pos : Int) == some (n.pos : Int)) = (m.pos == n.pos) := by
      rw [Bool.eq_iff_iff]
      simp only [beq_iff_eq, Option.some.injEq, Int.ofNat_inj]
    unfold Value.equal
    dsimp only
    rw [hb, equalBy_number, hm.toInt?, hn.toInt?, hpos]
  unfold Mark.equal
  split
  · rfl
  · exact hvalue

end Mark

/-- What is raised where a repetition stands still. -/
def Mark.standstill (m : Mark ω) : Value ω :=
  (match m.value.text? with
    | .ok said => Fault.notAdvancing said
    | .error f => f).exception

theorem Action.raise_standstill {α : Type} (m : Mark ω) :
    (do Action.fault (.notAdvancing (← m.value.text?)) : Action ω σ α) = Action.raise m.standstill := by
  unfold Mark.standstill
  rcases m.value.text? with f | said <;> rfl

/-- A cursor at a place of its input. -/
structure Cursor.Placed (d : Cursor ω) : Prop where
  inside : d.pos ≤ d.source.length
  counts : d.toMark.Counts

namespace Parser

variable {attempt : Action ω σ (Outcome ω)} {ch : Level.Channel} {message : String}
  {s t u : State ω σ} {res : Outcome ω} {v : Value ω} {done vs : List (Value ω)} {n : Nat}

/-! ## One loop for both repetitions -/

/-- Repeats an attempt until it fails, and takes back what the failed attempt consumed. -/
def looped (ch : Level.Channel) (message : String) (attempt : Action ω σ (Outcome ω)) :
    Nat → List (Value ω) → Action ω σ (List (Value ω))
  | 0, _ => Action.exhausted
  | n + 1, done => do
    let mark ← Action.save
    let res ← attempt
    if ← res.succeeded then
      checkProgress ch message mark
      looped ch message attempt n ((← res.value) :: done)
    else
      Action.rewindTo mark
      return done.reverse

/-- A separator, then an item; a separator that fails is the outcome. -/
def pairing (item sep : Action ω σ (Outcome ω)) : Action ω σ (Outcome ω) := do
  let res ← sep
  if ← res.succeeded then item else return res

theorem repeated_eq_looped (name : String) (body : Action ω σ (Outcome ω)) :
    ∀ (n : Nat) (done : List (Value ω)), repeated name body n done =
      looped .loops s!"many({name}) stopped: parser succeeded without consuming input" body n done
  | 0, _ => rfl
  | n + 1, done => by
    simp only [repeated, looped, repeated_eq_looped name body n]

theorem separated_eq_looped (name : String) (item sep : Action ω σ (Outcome ω)) :
    ∀ (n : Nat) (done : List (Value ω)), separated name item sep n done =
      looped .combinators s!"sep_by1({name}) stopped: separator and item consumed no input"
        (pairing item sep) n done
  | 0, _ => rfl
  | n + 1, done => by
    simp only [separated, looped, separated_eq_looped name item sep n, pairing, bind_assoc]
    refine congrArg _ (funext fun mark => congrArg _ (funext fun b => ?_))
    rcases hb : b.succeeded with f | _ | _
    · rfl
    · simp [hb]
    · simp

/-! ## One round -/

/-- The exception that tells of a repetition which stands still at a mark. -/
def TellsOf (m : Mark ω) (x : Value ω) : Prop :=
  ∀ said, m.value.text? = .ok said → x = (Fault.notAdvancing said).exception

/-- What is asked of the outcome of an attempt from `m` to `n` has no answer, but the fault `f`. -/
inductive Unanswered (m n : Mark ω) (res : Outcome ω) (f : Fault) : Prop
  | succeeded (h : res.succeeded = .error f)
  | moved (ha : res.succeeded = .ok true) (h : n.equal m = .error f)
  | value (ha : res.succeeded = .ok true) (hm : n.equal m = .ok false) (h : res.value = .error f)

/-- Successes and failures of their own kinds answer. -/
theorem Unanswered.derived {m n : Mark ω} {f : Fault} {b : Bool} (h : Unanswered m n res f)
    (hm : n.equal m = .ok b) :
    ∃ o, res = .derived o ∧ (res.succeeded = .error f ∨ res.value = .error f) := by
  rcases h with h | ⟨-, h⟩ | ⟨ha, -, h⟩
  · cases res with
    | derived o => exact ⟨o, rfl, .inl h⟩
    | ok v => cases h
    | err e pos => cases h
  · cases hm.symm.trans h
  · cases res with
    | derived o => exact ⟨o, rfl, .inr h⟩
    | ok v => cases h
    | err e pos => cases ha

/-- The ways in which a repetition that has gathered `done` ends with the attempt at `s`. -/
inductive Last (c : Context ω) (attempt : Action ω σ (Outcome ω)) (s : State ω σ)
    (done : List (Value ω)) : Answer ω (List (Value ω)) → State ω σ → Prop
  | failed {res : Outcome ω} {t : State ω σ} (h : attempt c s = (.returned res, t))
      (ha : res.succeeded = .ok false) :
      Last c attempt s done (.returned done) (t.backTo s.cursor.toMark)
  | still {res : Outcome ω} {t u : State ω σ} {x : Value ω} (h : attempt c s = (.returned res, t))
      (ha : res.succeeded = .ok true) (hm : t.cursor.toMark.equal s.cursor.toMark = .ok true)
      (hx : TellsOf s.cursor.toMark x) : Last c attempt s done (.raised x) u
  | unanswered {res : Outcome ω} {t : State ω σ} {f : Fault}
      (h : attempt c s = (.returned res, t))
      (hf : Unanswered s.cursor.toMark t.cursor.toMark res f) :
      Last c attempt s done (.raised f.exception) t
  | raised {e : Value ω} {t : State ω σ} (h : attempt c s = (.raised e, t)) :
      Last c attempt s done (.raised e) t
  | exhausted {t : State ω σ} (h : attempt c s = (.exhausted, t)) :
      Last c attempt s done .exhausted t

theorem checkProgress_of_moved {m : Mark ω} (h : s.cursor.toMark.equal m = .ok false) :
    checkProgress ch message m c s = (.returned (), s) := by
  simp [checkProgress, Action.bind_apply, h]

theorem checkProgress_of_still {m : Mark ω} (hon : c.settings.checksProgress = .ok true)
    (h : s.cursor.toMark.equal m = .ok true) :
    ∃ x u, checkProgress ch message m c s = (.raised x, u) ∧ TellsOf m x := by
  have hraise : checkProgress ch message m c s =
      (do Action.log .warning ch message
          Action.fault (.notAdvancing (← m.value.text?)) : Action ω σ Unit) c s := by
    simp [checkProgress, Action.bind_apply, h, hon]
  rw [hraise, Action.bind_apply]
  rcases hsaid : m.value.text? with f | said
  · exact ⟨_, _, rfl, fun said h => by cases hsaid.symm.trans h⟩
  · exact ⟨_, _, rfl, fun said' h => by rw [← Except.ok.inj (hsaid.symm.trans h)]⟩

theorem looped_of_moved (h : attempt c s = (.returned res, t)) (ha : res.succeeded = .ok true)
    (hm : t.cursor.toMark.equal s.cursor.toMark = .ok false) (hv : res.value = .ok v) :
    looped ch message attempt (n + 1) done c s = looped ch message attempt n (v :: done) c t := by
  have hgo : checkProgress ch message s.cursor.toMark c t = (.returned (), t) :=
    checkProgress_of_moved hm
  rw [looped, Action.bind_apply, Action.save_apply]
  simp [Action.bind_apply, h, ha, hgo, hv]

theorem looped_of_still (hon : c.settings.checksProgress = .ok true)
    (h : attempt c s = (.returned res, t)) (ha : res.succeeded = .ok true)
    (hm : t.cursor.toMark.equal s.cursor.toMark = .ok true) :
    ∃ x u, TellsOf s.cursor.toMark x ∧
      ∀ n, looped ch message attempt (n + 1) done c s = (.raised x, u) := by
  obtain ⟨x, u, hx, htells⟩ : ∃ x u,
      checkProgress ch message s.cursor.toMark c t = (.raised x, u) ∧ TellsOf s.cursor.toMark x :=
    checkProgress_of_still hon hm
  refine ⟨x, u, htells, fun n => ?_⟩
  rw [looped, Action.bind_apply, Action.save_apply]
  simp [Action.bind_apply, h, ha, hx]

/-- An attempt ends the repetition, or succeeds elsewhere and is followed by the next one. -/
theorem looped_round (hon : c.settings.checksProgress = .ok true) (ch : Level.Channel)
    (message : String) (attempt : Action ω σ (Outcome ω)) (s : State ω σ) (done : List (Value ω)) :
    (∃ x u, Last c attempt s done.reverse x u ∧
      ∀ n, looped ch message attempt (n + 1) done c s = (x, u)) ∨
    ∃ res v t, attempt c s = (.returned res, t) ∧ res.succeeded = .ok true ∧
      t.cursor.toMark.equal s.cursor.toMark = .ok false ∧ res.value = .ok v ∧
      ∀ n, looped ch message attempt (n + 1) done c s = looped ch message attempt n (v :: done) c t := by
  -- The round from its mark on; each way on below is one of its exits.
  have hloop (n : Nat) : looped ch message attempt (n + 1) done c s = (do
      let res ← attempt
      if ← res.succeeded then
        checkProgress ch message s.cursor.toMark
        looped ch message attempt n ((← res.value) :: done)
      else
        Action.rewindTo s.cursor.toMark
        return done.reverse : Action ω σ (List (Value ω))) c s := by
    rw [looped, Action.bind_apply, Action.save_apply]
  rcases h : attempt c s with ⟨res | e | _, t⟩
  · rcases ha : res.succeeded with f | _ | _
    · refine .inl ⟨_, t, .unanswered h (.succeeded ha), fun n => ?_⟩
      simp [hloop, Action.bind_apply, h, ha]
    · refine .inl ⟨_, _, .failed h ha, fun n => ?_⟩
      simp [hloop, Action.bind_apply, Action.map_apply, h, ha]
    · rcases hm : t.cursor.toMark.equal s.cursor.toMark with f | _ | _
      · refine .inl ⟨_, t, .unanswered h (.moved ha hm), fun n => ?_⟩
        simp [hloop, Action.bind_apply, h, ha, checkProgress, hm]
      · have hgo : checkProgress ch message s.cursor.toMark c t = (.returned (), t) :=
          checkProgress_of_moved hm
        rcases hv : res.value with f | v
        · refine .inl ⟨_, t, .unanswered h (.value ha hm hv), fun n => ?_⟩
          simp [hloop, Action.bind_apply, h, ha, hgo, hv]
        · exact .inr ⟨res, v, t, rfl, ha, hm, hv, fun n => looped_of_moved h ha hm hv⟩
      · obtain ⟨x, u, htells, hrun⟩ := looped_of_still hon h ha hm
        exact .inl ⟨_, u, .still h ha hm htells, hrun⟩
  · refine .inl ⟨_, t, .raised h, fun n => ?_⟩
    simp [hloop, Action.bind_apply, h]
  · refine .inl ⟨_, t, .exhausted h, fun n => ?_⟩
    simp [hloop, Action.bind_apply, h]

/-! ## Whole runs -/

/-- From `s` attempts succeed in a row with the values `vs`, each from a mark to one that `R` relates
to it; the last of them leaves `t`. -/
inductive Strides (c : Context ω) (R : Mark ω → Mark ω → Prop)
    (attempt : Action ω σ (Outcome ω)) :
    State ω σ → List (Value ω) → State ω σ → Prop
  | nil (s : State ω σ) : Strides c R attempt s [] s
  | cons {s t u : State ω σ} {res : Outcome ω} {v : Value ω} {vs : List (Value ω)}
      (h : attempt c s = (.returned res, t)) (ha : res.succeeded = .ok true)
      (hv : res.value = .ok v) (hm : R s.cursor.toMark t.cursor.toMark)
      (rest : Strides c R attempt t vs u) : Strides c R attempt s (v :: vs) u

/-- The second mark is at another place than the first, which may be before it. -/
def Elsewhere (m n : Mark ω) : Prop := n.equal m = .ok false

/-- The second mark is further on. -/
def Ahead (m n : Mark ω) : Prop := m.pos < n.pos

theorem looped_of_strides (h : Strides c Elsewhere attempt s vs t) :
    looped ch message attempt (n + vs.length) done c s =
      looped ch message attempt n (vs.reverse ++ done) c t := by
  induction h generalizing done with
  | nil => rfl
  | @cons s t u res v vs h ha hv hm _ ih =>
    calc looped ch message attempt (n + vs.length + 1) done c s
        = looped ch message attempt (n + vs.length) (v :: done) c t := looped_of_moved h ha hm hv
      _ = looped ch message attempt n (vs.reverse ++ v :: done) c u := ih
      _ = looped ch message attempt n ((v :: vs).reverse ++ done) c u := by
        rw [List.reverse_cons, List.append_assoc, List.singleton_append]

/-- A run is a row of attempts that succeed elsewhere and one that ends it, or there are no more
rounds. -/
theorem looped_run (hon : c.settings.checksProgress = .ok true) (ch : Level.Channel)
    (message : String) (attempt : Action ω σ (Outcome ω)) :
    ∀ (n : Nat) (done : List (Value ω)) (s : State ω σ), ∃ vs t, Strides c Elsewhere attempt s vs t ∧
      ((vs.length = n ∧ looped ch message attempt n done c s = (.exhausted, t)) ∨
        ∃ x u, vs.length < n ∧ Last c attempt t (done.reverse ++ vs) x u ∧
          looped ch message attempt n done c s = (x, u))
  | 0, done, s => ⟨[], s, .nil s, .inl ⟨rfl, rfl⟩⟩
  | n + 1, done, s => by
    obtain ⟨x, u, hlast, hrun⟩ | ⟨res, v, t, h, ha, hm, hv, hrun⟩ :=
      looped_round hon ch message attempt s done
    · refine ⟨[], s, .nil s, .inr ⟨x, u, Nat.succ_pos n, ?_, hrun n⟩⟩
      rwa [List.append_nil]
    · obtain ⟨vs, w, hvs, hend⟩ := looped_run hon ch message attempt n (v :: done) t
      refine ⟨v :: vs, w, .cons h ha hv hm hvs, ?_⟩
      rw [hrun n]
      rcases hend with ⟨hlen, hrun'⟩ | ⟨x, u, hlen, hlast, hrun'⟩
      · exact .inl ⟨congrArg _ hlen, hrun'⟩
      · refine .inr ⟨x, u, Nat.succ_lt_succ hlen, ?_, hrun'⟩
        rwa [List.reverse_cons, List.append_assoc] at hlast

/-- The rounds run out exactly if as many attempts succeed in a row, each of them elsewhere. -/
theorem looped_exhausted_iff (hon : c.settings.checksProgress = .ok true)
    (hends : ∀ s, (attempt c s).1 ≠ .exhausted) :
    (looped ch message attempt n done c s).1 = .exhausted ↔
      ∃ vs t, vs.length = n ∧ Strides c Elsewhere attempt s vs t := by
  constructor
  · intro hfull
    obtain ⟨vs, t, hvs, ⟨hlen, -⟩ | ⟨x, u, -, hlast, hrun⟩⟩ :=
      looped_run hon ch message attempt n done s
    · exact ⟨vs, t, hlen, hvs⟩
    · obtain rfl : x = .exhausted := by rw [← hfull, hrun]
      cases hlast with
      | exhausted h => exact absurd (congrArg Prod.fst h) (hends t)
  · rintro ⟨vs, t, rfl, hvs⟩
    have hrun : looped ch message attempt (0 + vs.length) done c s =
        looped ch message attempt 0 (vs.reverse ++ done) c t := looped_of_strides hvs
    rw [Nat.zero_add] at hrun
    rw [hrun, looped, Action.exhausted_apply]

/-- A parser that succeeds and stays where it began cannot be repeated. -/
theorem run_many_of_still {cb : Callbacks ω σ} {p : Parser ω}
    (hon : c.settings.checksProgress = .ok true) (h : p.run cb c s = (.returned res, t))
    (ha : res.succeeded = .ok true) (hm : t.cursor.toMark.equal s.cursor.toMark = .ok true)
    (hr : 0 < cb.rounds) :
    ∃ x u, TellsOf s.cursor.toMark x ∧ (many p).run cb c s = (.raised x, u) := by
  obtain ⟨n, hn⟩ : ∃ n, cb.rounds = n + 1 := ⟨cb.rounds - 1, by omega⟩
  obtain ⟨x, u, htells, hloop⟩ : ∃ x u, TellsOf s.cursor.toMark x ∧ ∀ k, looped .loops
      s!"many({p.name}) stopped: parser succeeded without consuming input" (p.run cb) (k + 1) [] c s =
        (.raised x, u) := looped_of_still hon h ha hm
  refine ⟨x, u, htells, ?_⟩
  rw [run, repeated_eq_looped, Action.bind_apply, hn, hloop]

end Parser

end ParserAlgebra
