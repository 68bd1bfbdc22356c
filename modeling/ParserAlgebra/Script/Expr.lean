import ParserAlgebra.Parser.Operator

/-!
# Scripts

A script is a list of steps that make kinds of errors, declare conversions, build parsers and run
them. This module holds its terms as they are written, before anything is made of them.
-/

namespace ParserAlgebra.Script

/-- A value as it is written. Every use makes a fresh one. -/
inductive ValueExpr where
  | none
  | bool (b : Bool)
  | int (n : Int)
  | numeral (text : String)
  | str (s : String)
  | list (items : List ValueExpr)
  | tuple (items : List ValueExpr)
  | span (source start stop : ValueExpr)
  | mismatch (noSpace : Bool)
  | call (kind : String) (args : List ValueExpr)
  | ok (value : ValueExpr)
  | err (error pos : ValueExpr)

/-- A kind by its name, or a plain value that stands in its place. -/
inductive KindExpr where
  | named (name : String)
  | plain (v : ValueExpr)

/-- The way a parsable class has its `parse`. -/
inductive ParseKind where
  | static | bound | attribute | absent
  deriving DecidableEq

/-- What is taken of a parsable class. -/
inductive ParseUse where
  | itself | method | anInstance
  deriving DecidableEq

/-- The name of a function: its own, the one it has by default, or none at all. -/
inductive Naming where
  | given (name : String)
  | usual
  | anonymous

mutual
inductive FunctionExpr where
  | mk (naming : Naming) (body : FunctionBody)
inductive FunctionBody where
  | identity | text | shown | length | reverse | first | second | double
  | add (n : ValueExpr)
  | list | int | typeName | expectedLength | takeText | pure | fail
  | const (value : ValueExpr)
  | wrap (kind : KindExpr)
  | ok (value : ValueExpr)
  | err (error pos : ValueExpr)
  | raise (error : ValueExpr)
  | parser (p : ParserExpr)
  | run (p : ParserExpr)
  | ifText (text : String) (yes no : FunctionExpr)
inductive RoutineExpr where
  | mk (naming : Naming) (body : RoutineBody)
inductive RoutineBody where
  | ok (value : ValueExpr)
  | err (error pos : ValueExpr)
  | bad (value : ValueExpr)
  | advance (n : ValueExpr)
  | take (n : ValueExpr)
  | tryTake (n : ValueExpr)
  | goto (mark : ValueExpr)
  | eatErr (n error pos : ValueExpr)
  | oneOf (chars : String)
  | place
  | raise (error : ValueExpr)
  | run (p : ParserExpr)
  | inTurn (bodies : List RoutineExpr)
inductive ParserExpr where
  | word | whitespace | nextChar | eof
  | take (literal : String)
  | pure (value : ValueExpr)
  | fail (error : ValueExpr)
  /-- What a sign is for, called by its name. -/
  | call (s : Sign) (a b : ParserExpr)
  /-- A sign behind a parser. What is written on the left is adapted first, so the sign is always read there
  and means what its name does. -/
  | sign (s : Sign) (a b : ParserExpr)
  | choice (ps : List ParserExpr)
  | many (a : ParserExpr)
  | skipMany (a : ParserExpr)
  | many1 (a : ParserExpr)
  | optionMaybe (a : ParserExpr)
  | tryParse (a : ParserExpr)
  | option (default : ValueExpr) (a : ParserExpr)
  | sepBy (a sep : ParserExpr)
  | sepBy1 (a sep : ParserExpr)
  | map (a : ParserExpr) (f : FunctionExpr)
  | andThen (a : ParserExpr) (f : FunctionExpr) (err : Option KindExpr)
  | bind (a : ParserExpr) (f : FunctionExpr)
  | convertErr (a : ParserExpr) (target : KindExpr)
  | mapErr (a : ParserExpr) (f : FunctionExpr) (err : Option KindExpr)
  | later (a : ParserExpr) (err : Option KindExpr) (naming : Naming)
  | trace (label : String)
  | traced (label : String) (a : ParserExpr)
  | ref (name : String)
  | new (body : RoutineExpr) (err : Option KindExpr) (name : Option String) (decorator : Bool)
  | fn (body : RoutineExpr) (errType : Option KindExpr)
  | asParser (a : ParserExpr) (err : Option KindExpr)
  | parsableParser (a : ParserExpr)
  | kind (name : String)
  | value (v : ValueExpr)
  | parsable (name : String) (kind : ParseKind) (body : Option RoutineExpr) (value : ValueExpr)
      (err errType : Option KindExpr) (call : Option RoutineExpr) (use : ParseUse)
end

/-- How a parser is run by a step. -/
inductive Via where
  | call | run | logged | printed
  deriving DecidableEq

/-- What a step asks of the cursor. -/
inductive CursorCall where
  | peek | rest | isEof | length | text | shown | truth | save
  | advance | take | tryTake | restore | sliceFrom | startsWith | lineCol
  deriving DecidableEq

inductive Step where
  | cursor (source : String) (pos : ValueExpr)
  | cursorCall (c : CursorCall) (args : List ValueExpr)
  | span (source start stop : ValueExpr)
  | value (v : ValueExpr)
  | eq (values : List ValueExpr)
  | distinct (values : List ValueExpr)
  | unwrap (v : ValueExpr)
  | describe (v : ValueExpr) (source : String)
  | type (name : String) (bases : List KindExpr) (absorbs : List KindExpr)
  | register (source target : KindExpr) (fn : Option FunctionExpr) (decorator : Bool)
  | unregister (source target : KindExpr)
  | edges
  | canConvert (source target : KindExpr)
  | require (source target : KindExpr) (context : List String)
  | join (source target : KindExpr) (context : List String)
  | coerce (value : ValueExpr) (target : KindExpr)
  | configure (changes : List (String × ValueExpr))
  | restoreSettings
  | log (level : Level)
  | bindName (name : String) (p : ParserExpr)
  | parsable (p : ParserExpr)
  | parse (p : ParserExpr) (text : Option String) (start : ValueExpr) (via : Via)

end ParserAlgebra.Script
