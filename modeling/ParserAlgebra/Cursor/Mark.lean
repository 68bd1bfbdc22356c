import ParserAlgebra.Value.Equality

/-!
# Marks

A mark is a place in an input. A place can be given by any value that counts as a number, a truth
value for one, and is then told as it was given, until a move computes the place anew.
-/

namespace ParserAlgebra

structure Mark (ω : Type) where
  pos : Nat
  /-- What the place was given by, if it is not the plain number. -/
  given : Option (Value ω) := Option.none

namespace Mark

variable {ω : Type}

/-- The place that a value gives which counts as a number that is not negative. -/
def ofValue : Value ω → Mark ω
  | .int n => { pos := n.toNat }
  | v => { pos := (v.toInt?.getD 0).toNat, given := some v }

/-- The place as it is told. -/
def value (m : Mark ω) : Value ω := m.given.getD (.int m.pos)

@[simp] theorem value_mk (pos : Nat) : value (⟨pos, none⟩ : Mark ω) = .int pos := rfl

@[simp] theorem ofValue_int (n : Nat) : ofValue (.int n : Value ω) = ⟨n, none⟩ := rfl

variable [HostObject ω]

/-- Whether two marks are equal, as what they were given by. -/
def equal (m n : Mark ω) : Except Fault Bool :=
  match m.given, n.given with
  | none, none => .ok (m.pos == n.pos)
  | _, _ => m.value.equal n.value

@[simp] theorem equal_mk (p q : Nat) : equal (⟨p, none⟩ : Mark ω) ⟨q, none⟩ = .ok (p == q) := rfl

end Mark

/-- The part of an input between two marks. A span whose bounds are not plain numbers keeps them as
they were given. -/
def Mark.spanTo {ω : Type} (source : List Char) (a b : Mark ω) : Value ω :=
  let s : Span := { source, start := a.pos, stop := b.pos }
  match a.given, b.given with
  | none, none => .span s
  | _, _ =>
    .object .span .none
      (.cons .text (.str s.text) (.cons .source (.str (String.ofList source))
        (.cons .start a.value (.cons .stop b.value .nil)))) 0 none

@[simp] theorem Mark.spanTo_mk {ω : Type} (source : List Char) (p q : Nat) :
    Mark.spanTo source (⟨p, none⟩ : Mark ω) ⟨q, none⟩ =
      .span { source, start := p, stop := q } := rfl

end ParserAlgebra
