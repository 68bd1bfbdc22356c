import ParserAlgebra.Parser.Build
import ParserAlgebra.Proofs.Ensures
import Mathlib.Data.List.Forall2

/-!
# What building a parser demands

A combinator that joins two kinds of error returns a parser exactly if the kinds join
(`Registry.Joins`): the first is a kind, and it is infallible or what the second declares can stand
for it. A choice is built of the parsers that its operands stand for, and each of them joins what
was declared before it (`mkChoice_returned`).
-/

namespace ParserAlgebra

variable {ω σ : Type} [HostObject ω] {c : Context ω} {s t : State ω σ}

/-- Two declarations have a kind of error together. -/
def Registry.Joins (r : Registry ω) (first second : Declared ω) : Prop :=
  ∃ k, first = .kind k ∧
    (k.isInfallible = true ∨ second.isUndeclared = true ∨ r.canConvert second first = .ok true)

namespace Conversion

theorem demand_returned {source target : Declared ω} {context : String} {u : Unit} :
    demand source target context c s = (.returned u, t) ↔
      (source.isUndeclared = true ∨ c.registry.canConvert source target = .ok true) ∧ t = s := by
  unfold demand
  rcases hu : source.isUndeclared with _ | _
  · rw [if_neg (by simp), Action.bind_apply]
    simp only [Action.context_apply, Bool.false_eq_true, false_or]
    rcases c.registry.canConvert source target with f | _ | _
    · simp [Action.bind_apply]
    · rcases source.name? with f | n
      · simp [Action.bind_apply]
      · rcases target.name? with f | m <;> simp [Action.bind_apply, Action.log]
    · simp [@eq_comm _ s]
  · simp [@eq_comm _ s]

theorem join_returned {first second d : Declared ω} {context : String} :
    join first second context c s = (.returned d, t) ↔
      c.registry.Joins first second ∧ d = Registry.joined first second ∧ t = s := by
  rcases first with k | v
  · have hj : join (.kind k) second context = (if k.isInfallible then return second else do
        demand second (.kind k) context
        return .kind k : Action ω σ (Declared ω)) := rfl
    rw [hj]
    rcases hk : k.isInfallible with _ | _
    · rw [if_neg (by simp), Action.bind_returned]
      simp only [demand_returned, Action.pure_apply]
      constructor
      · rintro ⟨_, u, ⟨h, rfl⟩, hd⟩
        obtain ⟨rfl, rfl⟩ := by simpa using hd
        exact ⟨⟨k, rfl, .inr h⟩, by simp [Registry.joined, Declared.isInfallible, hk], rfl⟩
      · rintro ⟨⟨l, hl, h⟩, rfl, rfl⟩
        obtain rfl := Declared.kind.inj hl
        refine ⟨(), _, ⟨h.resolve_left (by simp [hk]), rfl⟩, ?_⟩
        simp [Registry.joined, Declared.isInfallible, hk]
    · have hj : c.registry.Joins (.kind k) second := ⟨k, rfl, .inl hk⟩
      simp [hj, Registry.joined, Declared.isInfallible, hk, @eq_comm _ s, @eq_comm _ second]
  · simp [join, Declared.kind?, Registry.Joins, Action.bind_apply]

end Conversion

namespace Parser

variable {p q r : Parser ω}

/-- What joins two kinds of error and then returns `q`, returns it exactly if they join. -/
theorem joining_returned {first second : Declared ω} {context : String} :
    (do let _ ← Conversion.join first second context; return q : Action ω σ (Parser ω)) c s =
      (.returned r, t) ↔ r = q ∧ c.registry.Joins first second ∧ t = s := by
  simp only [Action.bind_returned, Conversion.join_returned, Action.pure_apply]
  constructor
  · rintro ⟨_, _, ⟨h, -, rfl⟩, hr⟩
    obtain ⟨rfl, rfl⟩ := by simpa using hr
    exact ⟨rfl, h, rfl⟩
  · rintro ⟨rfl, h, rfl⟩
    exact ⟨_, _, ⟨h, rfl, rfl⟩, rfl⟩

theorem mkSeq_returned : mkSeq p q c s = (.returned r, t) ↔
    r = seq p q ∧ c.registry.Joins p.declares q.declares ∧ t = s := joining_returned

theorem mkAlt_returned : mkAlt p q c s = (.returned r, t) ↔
    r = alt p q ∧ c.registry.Joins p.declares q.declares ∧ t = s := joining_returned

theorem mkRefine_returned {f : ω} {err : Declared ω} :
    mkRefine p f err c s = (.returned r, t) ↔
      r = refine p f err ∧ c.registry.Joins p.declares err ∧ t = s := joining_returned

theorem mkConvert_returned {target : Declared ω} :
    mkConvert p target c s = (.returned r, t) ↔ r = convert p target ∧
      (p.declares.isUndeclared = true ∨ c.registry.canConvert p.declares target = .ok true) ∧
      t = s := by
  rw [mkConvert, Action.bind_returned]
  simp only [Conversion.demand_returned, Action.pure_apply]
  constructor
  · rintro ⟨_, _, ⟨h, rfl⟩, hr⟩
    obtain ⟨rfl, rfl⟩ := by simpa using hr
    exact ⟨rfl, h, rfl⟩
  · rintro ⟨rfl, h, rfl⟩
    exact ⟨(), _, ⟨h, rfl⟩, rfl⟩

/-- A sequence whose pair of values is mapped joins what the sequence joins. -/
theorem mapped_returned {f : Mapping ω} :
    (do return map (← mkSeq p q) f : Action ω σ (Parser ω)) c s = (.returned r, t) ↔
      r = map (seq p q) f ∧ c.registry.Joins p.declares q.declares ∧ t = s := by
  simp only [Action.bind_returned, mkSeq_returned, Action.pure_apply]
  constructor
  · rintro ⟨_, _, ⟨rfl, h, rfl⟩, hr⟩
    obtain ⟨rfl, rfl⟩ := by simpa using hr
    exact ⟨rfl, h, rfl⟩
  · rintro ⟨rfl, h, rfl⟩
    exact ⟨_, _, ⟨rfl, h, rfl⟩, rfl⟩

theorem mkAfter_returned : mkAfter p q c s = (.returned r, t) ↔
    r = map (seq p q) .first ∧ c.registry.Joins p.declares q.declares ∧ t = s := mapped_returned

theorem mkBefore_returned : mkBefore p q c s = (.returned r, t) ↔
    r = map (seq p q) .second ∧ c.registry.Joins p.declares q.declares ∧ t = s := mapped_returned

theorem mkMany1_returned : mkMany1 p c s = (.returned r, t) ↔
    r = map (seq p (many p)) .cons ∧ c.registry.Joins p.declares (many p).declares ∧ t = s :=
  mapped_returned

/-- Each of the parsers joins what the alternatives before it declare together. -/
def JoinsAll (reg : Registry ω) : Parser ω → List (Parser ω) → Prop
  | _, [] => True
  | p, q :: qs => reg.Joins p.declares q.declares ∧ JoinsAll reg (alt p q) qs

/-- The operands stand for the parsers, one by one. -/
abbrev Adapted (os : List (Operand ω)) (ps : List (Parser ω)) : Prop :=
  List.Forall₂ (fun (o : Operand ω) p => o.toParser none = .ok p) os ps

theorem Adapted.mem {os : List (Operand ω)} {ps : List (Parser ω)} (h : Adapted os ps)
    (hq : q ∈ ps) : ∃ o ∈ os, o.toParser none = .ok q := by
  induction h with
  | nil => cases hq
  | cons ho _ ih =>
    rcases List.mem_cons.1 hq with rfl | hq
    · exact ⟨_, List.mem_cons_self .., ho⟩
    · obtain ⟨o, hm, ho⟩ := ih hq
      exact ⟨o, List.mem_cons_of_mem _ hm, ho⟩

theorem Adapted.unique {os : List (Operand ω)} {ps qs : List (Parser ω)} (hp : Adapted os ps)
    (hq : Adapted os qs) : ps = qs := by
  induction hp generalizing qs with
  | nil => cases hq; rfl
  | cons ho _ ih =>
    obtain _ | ⟨ho', hqs⟩ := hq
    rw [ih hqs, Except.ok.inj (ho.symm.trans ho')]

theorem foldlM_mkAlt_returned {os : List (Operand ω)} :
    (os.foldlM (fun p (o : Operand ω) => do mkAlt p (← o.toParser none)) p :
      Action ω σ (Parser ω)) c s = (.returned r, t) ↔
      ∃ ps, Adapted os ps ∧ JoinsAll c.registry p ps ∧ r = ps.foldl alt p ∧ t = s := by
  induction os generalizing p s with
  | nil =>
    simp only [List.foldlM_nil, Action.pure_apply]
    constructor
    · intro h
      obtain ⟨rfl, rfl⟩ := by simpa using h
      exact ⟨[], .nil, trivial, rfl, rfl⟩
    · rintro ⟨_, ⟨⟩, -, rfl, rfl⟩
      rfl
  | cons o os ih =>
    simp only [List.foldlM_cons, Action.bind_returned, ih]
    constructor
    · rintro ⟨a, u, ⟨q, v, hq, ha⟩, ps, hps, hjs, rfl, rfl⟩
      rcases ho : o.toParser none with f | q' <;> rw [ho] at hq
      · simp at hq
      · obtain ⟨rfl, rfl⟩ := by simpa using hq
        obtain ⟨rfl, hj, rfl⟩ := mkAlt_returned.1 ha
        exact ⟨_, .cons ho hps, ⟨hj, hjs⟩, rfl, rfl⟩
    · rintro ⟨_, ⟨⟩ | ⟨hq, hps⟩, hjs, rfl, rfl⟩
      refine ⟨_, _, ⟨_, _, ?_, mkAlt_returned.2 ⟨rfl, hjs.1, rfl⟩⟩, _, hps, hjs.2, rfl, rfl⟩
      rw [hq]
      rfl

theorem mkChoice_returned {o : Operand ω} {os : List (Operand ω)} :
    mkChoice (o :: os) c s = (.returned r, t) ↔
      ∃ p ps, o.toParser none = .ok p ∧ Adapted os ps ∧ JoinsAll c.registry p ps ∧
        r = ps.foldl alt p ∧ t = s := by
  rw [mkChoice]
  rcases o.toParser none with f | p
  · simp [Action.bind_apply]
  · simp only [Action.monadLift_ok, pure_bind, foldlM_mkAlt_returned, Except.ok.injEq]
    constructor
    · rintro ⟨ps, h⟩
      exact ⟨p, ps, rfl, h⟩
    · rintro ⟨_, ps, rfl, h⟩
      exact ⟨ps, h⟩

end Parser

end ParserAlgebra
