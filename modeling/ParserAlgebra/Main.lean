import ParserAlgebra.Assignment

/-!
# The command line

Prints the assignments that the arguments hold.
-/

def main (args : List String) : IO Unit :=
  IO.print (ParserAlgebra.Assignment.printedFor args)
