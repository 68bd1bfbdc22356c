import ParserAlgebra.Cursor.Basic
import ParserAlgebra.Text.Slice

/-!
# Lines and columns

A place is reported by its line and column, both counted from one. Only the newline character ends
a line. A report shows the line around the place with a caret under it.
-/

namespace ParserAlgebra

/-- The place of the last newline in a text. -/
def lastNewline? : List Char → Option Nat
  | [] => none
  | c :: s => (lastNewline? s).elim (if c = '\n' then some 0 else none) fun i => some (i + 1)

/-- The line and the column of the place `pos`; one that is beyond the end counts as the end, and a
negative one ends the counted part of the text that far before its end. -/
def lineCol (source : List Char) (pos : Int) : Int × Int :=
  let pos := min pos source.length
  let before := source.take (clampIndex source.length pos)
  let newline := ((lastNewline? before).map Int.ofNat).getD (-1)
  ((before.count '\n' : Int) + 1, pos - newline)

/-- The line and the column of a place, or of the cursor. -/
def Cursor.lineCol {ω : Type} (c : Cursor ω) (pos : Option Int) : Int × Int :=
  ParserAlgebra.lineCol c.source (pos.getD c.pos)

/-- The lines of a text, without the newlines between them. -/
def lines : List Char → List (List Char)
  | [] => [[]]
  | c :: s =>
    if c = '\n' then [] :: lines s
    else
      match lines s with
      | [] => [[c]]
      | l :: ls => (c :: l) :: ls

/-- The part of a line that a report shows, and the column of the caret below it. A place among the
first twenty columns is shown with the start of its line, any other in the middle. -/
def excerpt (line : List Char) (column : Int) : List Char × Int :=
  if column ≤ 20 then (slice line 0 40, column - 1)
  else (slice line (column - 21) (column + 19), 20)

/-- The least number that can be a count of characters; a negative count is none at all. -/
def leastCount : Int := -Int.pow 2 63

/-- A report of what is wrong at a place of the input; without a place it is the end. There is none
of a place too far before the start. -/
def report (said : Except Fault String) (source : List Char) (pos : Option Int) :
    Except Fault String := do
  let pos := min (pos.getD source.length) source.length
  let (line, column) := lineCol source pos
  let (shown, caret) := excerpt ((lines source).getD (line - 1).toNat []) column
  if caret < leastCount then .error .uncountable
  else
    return (← said) ++ s!" (line {line}, column {column})\n" ++ String.ofList shown ++ "\n" ++
      String.ofList (List.replicate caret.toNat ' ') ++ "^"

end ParserAlgebra
