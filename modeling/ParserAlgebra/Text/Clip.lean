/-!
# Text cut to a size

Long names are cut short in messages. The limit counts bytes of the encoded text, so a character can
be cut apart; the replacement character then stands for what is left of it.
-/

namespace ParserAlgebra

/-- The bytes that a text is encoded in. -/
def encodedSize : List Char → Nat
  | [] => 0
  | c :: s => c.utf8Size + encodedSize s

/-- The characters that fit into `n` bytes, and a sign for one that fits in part. -/
def clipChars (n : Nat) : List Char → List Char
  | [] => []
  | c :: s =>
    if c.utf8Size ≤ n then c :: clipChars (n - c.utf8Size) s
    else if n = 0 then [] else ['\uFFFD']

def clip (n : Nat) (s : String) : String := String.ofList (clipChars n s.toList)

end ParserAlgebra
