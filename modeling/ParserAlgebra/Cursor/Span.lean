/-!
# Spans

A span is a part of an input, held as the input and the two places that bound it; its text is cut
out only when it is asked for.
-/

namespace ParserAlgebra

structure Span where
  source : List Char
  start : Nat
  stop : Nat
  deriving DecidableEq, Repr

namespace Span

/-- Two places bound a part of the input if they are in order and inside it. -/
def Fits (source : List Char) (start stop : Int) : Prop :=
  0 ≤ start ∧ start ≤ stop ∧ stop ≤ source.length

instance (source : List Char) (start stop : Int) : Decidable (Fits source start stop) :=
  inferInstanceAs (Decidable (_ ∧ _ ∧ _))

def chars (s : Span) : List Char := (s.source.drop s.start).take (s.stop - s.start)

def text (s : Span) : String := String.ofList s.chars

def length (s : Span) : Nat := s.stop - s.start

end Span

end ParserAlgebra
