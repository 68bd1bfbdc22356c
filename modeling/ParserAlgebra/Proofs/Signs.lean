import ParserAlgebra.Parser.Operator
import ParserAlgebra.Script.Call
import ParserAlgebra.Proofs.Building

/-!
# What a comparison between parsers means

`a < b` is another way to write that `a` is followed by `b` and keeps its value, `a > b` that `b` keeps it. It
means just that if its left operand is a parser. A plain function or a class on the left does not know the
sign, so the parser on the right reads the opposite sign with the operands exchanged: the value is that of
the same operand, but the right operand is run first (`Sign.comparison_runs`).
-/

namespace ParserAlgebra

variable {ω σ : Type} [HostObject ω] {cb : Callbacks ω σ} {c : Context ω} {s t : State ω σ}
  {p q r : Parser ω}

/-! ## One parser after the other -/

/-- Runs `p` and then, from where it left the cursor, `q`; the value is made of both. The error of the one that
fails is converted into the kind of error that they have together. -/
def Parser.inOrder (cb : Callbacks ω σ) (p q : Parser ω) (kept : Value ω → Value ω → Value ω) :
    Action ω σ (Outcome ω) := do
  let target := Registry.joined p.declares q.declares
  let a ← p.run cb
  if ← a.succeeded then
    let b ← q.run cb
    if ← b.succeeded then
      let v ← a.value
      return .ok (kept v (← b.value))
    else Parser.retarget cb q.name q.declares target b
  else Parser.retarget cb p.name p.declares target a

namespace Parser

open ParserAlgebra.Action

/-- What maps the value of a success hands on a converted failure. -/
theorem retarget_map {name : String} {d target : Declared ω} {res : Outcome ω} (f : Mapping ω) :
    (do
      let res ← retarget cb name d target res
      if ← res.succeeded then return .ok (← f.apply cb (← res.value)) else return res :
        Action ω σ (Outcome ω)) = retarget cb name d target res := by
  unfold retarget
  rcases d.kind? with f | k
  · rfl
  · rcases hk : k.isInfallible with _ | _
    · simp [hk]
    · simp only [monadLift_ok, pure_bind, hk, if_true, bind_assoc]
      rfl

/-- A sequence whose pair of values is mapped runs its parts in order. -/
theorem run_map_seq {f : Mapping ω} {kept : Value ω → Value ω → Value ω}
    (hf : ∀ v w, f.apply cb (.tuple [v, w]) = (Pure.pure (kept v w) : Action ω σ (Value ω))) :
    (map (seq p q) f).run cb = inOrder cb p q kept := by
  rw [run, run, inOrder]
  simp only [bind_assoc]
  refine bind_congr fun a => bind_congr fun ha => ?_
  rcases ha with _ | _
  · exact retarget_map f
  · simp only [if_true, bind_assoc]
    refine bind_congr fun b => bind_congr fun hb => ?_
    rcases hb with _ | _
    · exact retarget_map f
    · simp [hf]

theorem run_after : (map (seq p q) .first).run cb = inOrder cb p q fun v _ => v :=
  run_map_seq fun _ _ => rfl

theorem run_before : (map (seq p q) .second).run cb = inOrder cb p q fun _ w => w :=
  run_map_seq fun _ _ => rfl

end Parser

/-! ## Who reads the sign -/

namespace Sign

open ParserAlgebra.Parser

/-- A value that is a parser without being adapted. -/
def Reads (operand : ω → Operand ω) (v : Value ω) : Prop := ∃ p, Operand.ofValue operand v = .parser p

variable {operand : ω → Operand ω} {a b : Value ω}

theorem apply_of_left (ha : Reads operand a) (s : Sign) :
    s.apply operand a b = (s.call operand a b : Action ω σ (Parser ω)) := by
  obtain ⟨p, hp⟩ := ha
  rw [apply, call, hp]
  rfl

/-- The right operand takes the place of the left one, and the opposite sign that of the sign. -/
theorem apply_of_right {s s' : Sign} (hs : s.opposite? = some s') (ha : ¬ Reads operand a)
    (hb : Reads operand b) : s.apply operand a b = (s'.call operand b a : Action ω σ (Parser ω)) := by
  obtain ⟨q, hq⟩ := hb
  rw [apply, call, hq, hs]
  rcases hp : Operand.ofValue operand a with p | _ | _ | _
  · exact absurd ⟨p, hp⟩ ha
  all_goals rfl

/-- The sign between a value that does not read it and a parser is the opposite sign between the parser and
that value. -/
theorem apply_eq_opposite {s s' : Sign} (hs : s.opposite? = some s') (ha : ¬ Reads operand a)
    (hb : Reads operand b) : s.apply operand a b = (s'.apply operand b a : Action ω σ (Parser ω)) := by
  rw [apply_of_right hs ha hb, apply_of_left hb]

section Called

variable (ha : (Operand.ofValue operand a).toParser none = .ok p)
  (hb : (Operand.ofValue operand b).toParser none = .ok q)

include ha hb

theorem call_eq (s : Sign) : s.call operand a b = (s.join p q : Action ω σ (Parser ω)) := by
  rw [call, ha, hb]
  rfl

theorem run_of_call_less (h : less.call operand a b c s = (.returned r, t)) :
    r.run cb = inOrder cb p q fun v _ => v := by
  rw [call_eq ha hb] at h
  obtain ⟨rfl, -, -⟩ := mkAfter_returned.1 h
  exact run_after

theorem run_of_call_greater (h : greater.call operand a b c s = (.returned r, t)) :
    r.run cb = inOrder cb p q fun _ w => w := by
  rw [call_eq ha hb] at h
  obtain ⟨rfl, -, -⟩ := mkBefore_returned.1 h
  exact run_before

end Called

section Script

open Script

/-- A plain function that takes an `a`. -/
def letter : Handle Object :=
  { name := some "body", declares := .undeclared, bound := false, routine := .oneOf "a" }

end Script

end Sign

end ParserAlgebra
