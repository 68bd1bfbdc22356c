import ParserAlgebra.Value.Basic

/-!
# Classes with an index

A class of lists, of tuples or of outcomes can be given an index, which says what its values hold.
The result is no class itself, but it can be called as the class can, it goes by the name of the
class, and it passes questions on to the class. It can be taken apart, and then stands for several
classes.
-/

namespace ParserAlgebra.Script

structure IndexedClass where
  origin : Kind
  index : Nat
  /-- How often it was taken apart. -/
  unpacked : Nat

namespace IndexedClass

/-- What the classes that can have an index are classes of. -/
inductive Form where
  | sequence | outcome
  deriving DecidableEq

def forms : List (Kind × Form) :=
  [(.list, .sequence), (.tuple, .sequence), (.generic, .outcome)]

def form? (k : Kind) : Option Form := k.nearest? forms

/-- A kind with an index. Of the outcomes only the two themselves can have one. -/
def ofKind? (k : Kind) (index : Nat) : Except Fault IndexedClass :=
  match form? k with
  | some .sequence => .ok ⟨k, index, 0⟩
  | some .outcome =>
    if k = .ok ∨ k = .err then .ok ⟨k, index, 0⟩ else .error (.misused (.notGeneric k.shown))
  | none => .error (.misused (.kindNotSubscriptable k.name))

def isSequence (c : IndexedClass) : Bool := form? c.origin = some .sequence

def kind (c : IndexedClass) : Kind :=
  if c.isSequence then .sequenceAlias else if c.unpacked = 0 then .classAlias else .unpackedAlias

def shown (c : IndexedClass) : String :=
  String.ofList (List.replicate c.unpacked '*') ++ s!"{c.origin.path}[{c.index}]"

/-- It goes by the name of its class. -/
def name (c : IndexedClass) : String :=
  if c.isSequence || c.unpacked = 0 then c.origin.name else "Unpack"

/-- Its class is asked for what it lacks. -/
def holder (c : IndexedClass) : Holder :=
  if c.isSequence || c.unpacked = 0 then .aClass c.origin.name else .unsaid

/-- The class taken apart. -/
def apart (c : IndexedClass) : IndexedClass :=
  { c with unpacked := if c.isSequence then 1 else c.unpacked + 1 }

end IndexedClass

end ParserAlgebra.Script
