import ParserAlgebra.Cursor.Mark
import ParserAlgebra.Text.Quoted
import ParserAlgebra.Value.Construct

/-!
# Cursors

A cursor is a mark in an input. It moves forward over characters, and back only to a place that it
is given. A move that is refused is a fault, and there is no cursor after it, so the caller still
holds the one from before.

The program may give any value where a number of characters or a place is due. It is compared and
added before anything is done with it, so that a value which is no number is refused, and a truth
value counts as a number.
-/

namespace ParserAlgebra

structure Cursor (ω : Type) extends Mark ω where
  source : List Char

namespace Cursor

variable {ω : Type}

def ofList (source : List Char) : Cursor ω := { source, pos := 0 }

def rest (c : Cursor ω) : List Char := c.source.drop c.pos

def remaining (c : Cursor ω) : Nat := c.source.length - c.pos

def atEnd (c : Cursor ω) : Bool := c.source.length ≤ c.pos

def peek? (c : Cursor ω) : Option Char := c.source[c.pos]?

def startsWith (c : Cursor ω) (literal : List Char) : Bool := literal.isPrefixOf c.rest

def backTo (c : Cursor ω) (m : Mark ω) : Cursor ω := { c with toMark := m }

def onTo (c : Cursor ω) (pos : Nat) : Cursor ω := c.backTo { pos }

/-- The span from the cursor to a place further on. -/
def spanTo (c : Cursor ω) (stop : Nat) : Value ω := c.toMark.spanTo c.source { pos := stop }

/-! ## Moves -/

variable [HostObject ω]

/-- The cursor at a given place of an input. -/
def at? (source : List Char) (place : Value ω) : Except Fault (Cursor ω) := do
  let n ← Value.orderedAfter .int "<=" place
  if 0 ≤ n ∧ n ≤ source.length then return { source, toMark := .ofValue place }
  else .error (.outsideInput (← place.text?) source.length)

def advance (c : Cursor ω) (n : Value ω) : Except Fault (Cursor ω) := do
  let k ← n.orderedBefore "<"
  if k < 0 then .error .backwards
  else if c.source.length < c.pos + k then
    let count ← n.text?
    .error (.pastEnd count (← c.value.text?))
  else return c.onTo (c.pos + k.toNat)

/-- Moves over `n` characters and hands them out. -/
def take (c : Cursor ω) (n : Value ω) : Except Fault (Value ω × Cursor ω) := do
  let d ← c.advance n
  return (c.spanTo d.pos, d)

/-- The place a number of characters further on. -/
def further (c : Cursor ω) (n : Value ω) : Except Fault Int :=
  match n.toInt? with
  | some k => .ok (c.pos + k)
  | none => .error (.misused (.unsupported "+" c.value.kindOf.label n.kindOf.label))

/-- Like `take`, but where fewer than `n` characters are left nothing is handed out. -/
def tryTake (c : Cursor ω) (n : Value ω) : Except Fault (Option (Value ω) × Cursor ω) := do
  if c.source.length < (← c.further n) then return (none, c)
  else
    let (s, d) ← c.take n
    return (some s, d)

def restore (c : Cursor ω) (mark : Value ω) : Except Fault (Cursor ω) := do
  let n ← Value.orderedAfter .int "<=" mark
  if 0 ≤ n ∧ n ≤ c.source.length then return c.backTo (.ofValue mark)
  else .error (.outsideMark (← mark.text?) c.source.length)

/-- What lies between a saved place and the cursor. -/
def sliceFrom (c : Cursor ω) (mark : Value ω) : Except Fault (Value ω) :=
  Value.construct .span [.str (String.ofList c.source), mark, c.value]

/-- The shown form: the place and at most twenty of the characters that are left. -/
def shown? (c : Cursor ω) : Except Fault String := do
  let more := if 20 < c.remaining then "..." else ""
  return s!"Cursor(pos={← c.value.text?}, rest=" ++ quoted (String.ofList (c.rest.take 20)) ++
    more ++ ")"

end Cursor

end ParserAlgebra
