import ParserAlgebra.Assignment
import ParserAlgebra.Proofs.Building

/-!
# What a composition declares, however it is grouped

Parsers in a row can be put together in many groupings (`Grouping`), and not each of them is built
under the same registry, since conversions are not chained. Those that are built declare the same
kind of error: that of the leftmost leaf which is not infallible, or of the last leaf if all of them
are (`Declared.leading`). So what a composition declares is read off the row of its leaves alone
(`Grouping.declares_by_leaves`).
-/

namespace ParserAlgebra

variable {ω σ : Type}

/-- The leftmost declaration that is not infallible, or else the last one. -/
def Declared.leading (ds : List (Declared ω)) : Option (Declared ω) :=
  (ds.find? fun d => !d.isInfallible).or ds.getLast?

namespace Declared

variable {d e : Declared ω} {ds es : List (Declared ω)}

theorem leading_singleton (d : Declared ω) : leading [d] = some d := by
  cases hd : d.isInfallible <;> simp [leading, hd]

/-- Two rows together have the kind of error that the two kinds have together. -/
theorem leading_append (hd : leading ds = some d) (he : leading es = some e) :
    leading (ds ++ es) = some (Registry.joined d e) := by
  unfold leading at hd he ⊢
  rw [List.find?_append, List.getLast?_append]
  rcases hf : ds.find? (fun d => !d.isInfallible) with _ | a
  · -- The first row is infallible throughout, its last one included.
    have hlast : ds.getLast? = some d := by simpa [hf] using hd
    have hall : ∀ a ∈ ds, a.isInfallible = true := by simpa using hf
    have hjoin : Registry.joined d e = e := if_pos (hall d (List.mem_of_getLast? hlast))
    rw [hjoin]
    rcases hg : es.find? (fun d => !d.isInfallible) with _ | b
    · have hlast' : es.getLast? = some e := by simpa [hg] using he
      simp [hf, hg, hlast']
    · simpa [hf, hg] using he
  · obtain rfl : a = d := by simpa [hf] using hd
    have ha : a.isInfallible = false := by simpa using List.find?_some hf
    simp [hf, Registry.joined, ha]

end Declared

/-- How two parsers are put together under one kind of error. -/
inductive Joint where
  | seq
  | after
  | before
  | alt

/-- Operands of parsers, put together in some grouping; a choice has at least one alternative. -/
inductive Grouping (ω : Type) where
  | leaf (o : Operand ω)
  | node (j : Joint) (x y : Grouping ω)
  | choice (x : Grouping ω) (ys : List (Grouping ω))

namespace Grouping

mutual
/-- The operands from left to right. -/
def leaves : Grouping ω → List (Operand ω)
  | leaf o => [o]
  | node _ x y => x.leaves ++ y.leaves
  | choice x ys => x.leaves ++ leavesAll ys
def leavesAll : List (Grouping ω) → List (Operand ω)
  | [] => []
  | x :: xs => x.leaves ++ leavesAll xs
end

end Grouping

variable [HostObject ω] {c : Context ω} {s t : State ω σ} {p q r : Parser ω}

open ParserAlgebra.Parser

def Joint.mk : Joint → Parser ω → Parser ω → Action ω σ (Parser ω)
  | seq => mkSeq
  | after => mkAfter
  | before => mkBefore
  | alt => mkAlt

theorem Joint.declares_of_returned {j : Joint} (h : j.mk p q c s = (.returned r, t)) :
    r.declares = Registry.joined p.declares q.declares := by
  cases j with
  | seq => rw [(mkSeq_returned.1 h).1, declares]
  | after => rw [(mkAfter_returned.1 h).1, declares, declares]
  | before => rw [(mkBefore_returned.1 h).1, declares, declares]
  | alt => rw [(mkAlt_returned.1 h).1, declares]

theorem Parser.declares_foldl_alt (p : Parser ω) (qs : List (Parser ω)) :
    (qs.foldl alt p).declares = (qs.map declares).foldl Registry.joined p.declares := by
  induction qs generalizing p with
  | nil => rfl
  | cons q qs ih => exact ih (alt p q)

namespace Grouping

mutual
def build : Grouping ω → Action ω σ (Operand ω)
  | leaf o => return o
  | node j x y => do
    let p ← (← x.build).toParser none
    let q ← (← y.build).toParser none
    return .parser (← j.mk p q)
  | choice x ys => do
    let o ← x.build
    return .parser (← mkChoice (o :: (← buildAll ys)))
def buildAll : List (Grouping ω) → Action ω σ (List (Operand ω))
  | [] => return []
  | x :: xs => do
    let o ← x.build
    return o :: (← buildAll xs)
end

/-- The parser that a grouping is built into. -/
def parser (x : Grouping ω) : Action ω σ (Parser ω) := do (← x.build).toParser none

theorem adapt_returned {o : Operand ω} :
    (o.toParser none : Action ω σ (Parser ω)) c s = (.returned p, t) ↔
      o.toParser none = .ok p ∧ t = s := by
  rcases o.toParser none with f | q <;> simp [@eq_comm _ s]

mutual
/-- What is built declares what leads the row of its leaves. -/
theorem leading_of_build {x : Grouping ω} {s t : State ω σ} {o : Operand ω} {p : Parser ω}
    (h : x.build c s = (.returned o, t)) (ho : o.toParser none = .ok p) :
    ∃ ps, Adapted x.leaves ps ∧ Declared.leading (ps.map declares) = some p.declares := by
  cases x with
  | leaf o' =>
    obtain ⟨rfl, -⟩ : o' = o ∧ s = t := by simpa [build] using h
    exact ⟨[p], .cons ho .nil, Declared.leading_singleton _⟩
  | node j x y =>
    rw [build] at h
    simp only [Action.bind_returned, adapt_returned] at h
    obtain ⟨ox, _, hx, px, _, ⟨hox, rfl⟩, oy, _, hy, py, _, ⟨hoy, rfl⟩, r, _, hr, ho'⟩ := h
    obtain ⟨ps, hps, hlx⟩ := leading_of_build hx hox
    obtain ⟨qs, hqs, hly⟩ := leading_of_build hy hoy
    obtain ⟨rfl, -⟩ : .parser r = o ∧ _ := by simpa using ho'
    obtain rfl : r = p := Except.ok.inj ho
    refine ⟨ps ++ qs, List.rel_append hps hqs, ?_⟩
    rw [List.map_append, Joint.declares_of_returned hr]
    exact Declared.leading_append hlx hly
  | choice x ys =>
    rw [build] at h
    simp only [Action.bind_returned] at h
    obtain ⟨ox, _, hx, os, _, hys, r, _, hr, ho'⟩ := h
    obtain ⟨rfl, -⟩ : .parser r = o ∧ _ := by simpa using ho'
    obtain rfl : r = p := Except.ok.inj ho
    obtain ⟨p₀, qs, hox, hqs, -, rfl, -⟩ := mkChoice_returned.1 hr
    obtain ⟨ps, hps, hlx⟩ := leading_of_build hx hox
    obtain ⟨rs, hrs, hly⟩ := leading_of_buildAll hys hqs
    refine ⟨ps ++ rs, List.rel_append hps hrs, ?_⟩
    rw [List.map_append, declares_foldl_alt]
    exact hly _ _ hlx
/-- The alternatives that follow a row declare with it what their own leaves declare with it. -/
theorem leading_of_buildAll {xs : List (Grouping ω)} {s t : State ω σ} {os : List (Operand ω)}
    {qs : List (Parser ω)} (h : buildAll xs c s = (.returned os, t)) (hqs : Adapted os qs) :
    ∃ ps, Adapted (leavesAll xs) ps ∧ ∀ ds d, Declared.leading ds = some d →
      Declared.leading (ds ++ ps.map declares) =
        some ((qs.map declares).foldl Registry.joined d) := by
  cases xs with
  | nil =>
    obtain ⟨rfl, -⟩ : [] = os ∧ s = t := by simpa [buildAll] using h
    cases hqs
    exact ⟨[], .nil, fun ds d hd => by simpa using hd⟩
  | cons x xs =>
    rw [buildAll] at h
    simp only [Action.bind_returned] at h
    obtain ⟨o, _, hx, os', _, hxs, ho'⟩ := h
    obtain ⟨rfl, -⟩ : o :: os' = os ∧ _ := by simpa using ho'
    obtain _ | ⟨ho, hqs⟩ := hqs
    obtain ⟨ps, hps, hlx⟩ := leading_of_build hx ho
    obtain ⟨rs, hrs, hly⟩ := leading_of_buildAll hxs hqs
    refine ⟨ps ++ rs, List.rel_append hps hrs, fun ds d hd => ?_⟩
    rw [List.map_append, ← List.append_assoc]
    exact hly _ _ (Declared.leading_append hd hlx)
end

theorem leading_of_returned {x : Grouping ω} (h : x.parser c s = (.returned p, t)) :
    ∃ ps, Adapted x.leaves ps ∧ Declared.leading (ps.map declares) = some p.declares := by
  rw [parser] at h
  simp only [Action.bind_returned, adapt_returned] at h
  obtain ⟨o, _, hx, ho, -⟩ := h
  exact leading_of_build hx ho

/-- A grouping that is built declares what leads the row of its leaves, and so does each other
grouping of them that is built, under whatever registry. -/
theorem declares_by_leaves {x : Grouping ω} (h : x.parser c s = (.returned p, t)) :
    (∃ ps, Adapted x.leaves ps ∧ Declared.leading (ps.map declares) = some p.declares) ∧
    ∀ (y : Grouping ω) (c' : Context ω) (s' t' : State ω σ) (q : Parser ω), y.leaves = x.leaves →
      y.parser c' s' = (.returned q, t') → q.declares = p.declares := by
  obtain ⟨ps, hps, hp⟩ := leading_of_returned h
  refine ⟨⟨ps, hps, hp⟩, fun y c' s' t' q hleaves hy => ?_⟩
  obtain ⟨qs, hqs, hq⟩ := leading_of_returned hy
  rw [hleaves] at hqs
  obtain rfl := hps.unique hqs
  exact Option.some.inj (hq.symm.trans hp)

/-- Of three groupings of one row two are built. The third is not, since no missing word is converted
into a missing "=". -/
theorem declares_by_leaves_assignment :
    let never : Grouping Assignment.Function :=
      leaf (.function "never" (.kind (.mk "Never" 1 [.infallible])) .number)
    let blanks : Grouping Assignment.Function := leaf (.parser .whitespace)
    let name : Grouping Assignment.Function :=
      leaf (.parser (.convert .word (.kind Assignment.failed)))
    let sign : Grouping Assignment.Function := leaf (.parser (.take "="))
    let value : Grouping Assignment.Function := leaf (.parser .word)
    let x := node .seq (node .after never blanks) (choice name [sign, value, blanks])
    let y := choice (node .before never (node .alt blanks name)) [sign, node .after value blanks]
    let z := node .seq (node .seq never blanks) (choice name [node .seq sign value, blanks])
    let c : Context Assignment.Function := ⟨Assignment.registry, {}, .warning⟩
    let s : State Assignment.Function Unit := ⟨.ofList [], [], ()⟩
    y.leaves = x.leaves ∧ z.leaves = x.leaves ∧ (∃ e, z.parser c s = (.raised e, s)) ∧
      ∃ p q, x.parser c s = (.returned p, s) ∧ y.parser c s = (.returned q, s) ∧
        q.declares = p.declares ∧ p.declares = .kind Assignment.failed := by
  intro never blanks name sign value x y z c s
  obtain ⟨p, hx⟩ : ∃ p, x.parser c s = (.returned p, s) := ⟨_, rfl⟩
  obtain ⟨q, hy⟩ : ∃ q, y.parser c s = (.returned q, s) := ⟨_, rfl⟩
  obtain ⟨⟨ps, hps, hp⟩, hall⟩ := declares_by_leaves hx
  refine ⟨rfl, rfl, ⟨_, rfl⟩, p, q, hx, hy, hall y c s s q rfl hy, ?_⟩
  obtain rfl : [.function "never" (.kind (.mk "Never" 1 [.infallible])) .number, .whitespace,
      .convert .word (.kind Assignment.failed), .take "=", .word, .whitespace] = ps :=
    Adapted.unique (.cons rfl (.cons rfl (.cons rfl (.cons rfl (.cons rfl (.cons rfl .nil)))))) hps
  exact (Option.some.inj hp).symm

end Grouping

end ParserAlgebra
