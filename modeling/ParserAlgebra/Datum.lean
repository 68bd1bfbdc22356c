/-!
# Data of answers

What is told about a value is plain data: texts, numbers, lists, and fields under names.
-/

namespace ParserAlgebra

inductive Datum where
  | null
  | flag (b : Bool)
  | number (n : Int)
  | text (s : String)
  | list (items : List Datum)
  | fields (entries : List (String × Datum))

/-- Data under names. -/
abbrev Fields := List (String × Datum)

namespace Datum

/-- Numbers from here on are told by their digits. -/
def numberLimit : Nat := Nat.pow 2 53

/-- Data under a single name. -/
def field (name : String) (d : Datum) : Datum := fields [(name, d)]

end Datum

end ParserAlgebra
