import ParserAlgebra.Kind.Basic

/-!
# The kinds that are always there

The plain values, the exceptions, and the failures that the parsers of this library report. A kind
of serial number zero is known by its name alone (`Kind.standard?`).
-/

namespace ParserAlgebra.Kind

private def under (base : Kind) (name : String) : Kind := mk name 0 [base]

def object : Kind := mk "object" 0 []

def type : Kind := under object "type"
def noneType : Kind := under object "NoneType"
def int : Kind := under object "int"
def bool : Kind := under int "bool"
def str : Kind := under object "str"
def list : Kind := under object "list"
def tuple : Kind := under object "tuple"
def function : Kind := under object "function"

def method : Kind := under object "method"

/-- A class of sequences together with what they hold, and any other class with what it is about;
the last is such a class taken apart. -/
def sequenceAlias : Kind := under object "GenericAlias"
def classAlias : Kind := under object "_GenericAlias"
def unpackedAlias : Kind := under classAlias "_UnpackGenericAlias"

def span : Kind := under object "Span"
def cursor : Kind := under object "Cursor"
def generic : Kind := under object "Generic"
def ok : Kind := under generic "Ok"
def err : Kind := under generic "Err"
def parser : Kind := under generic "Parser"
def takeFailure : Kind := under object "TakeFailure"

/-- A code number: the one kind of error value that is no exception. -/
def code : Kind := under object "Code"

def baseException : Kind := under object "BaseException"
def exception : Kind := under baseException "Exception"
def valueError : Kind := under exception "ValueError"
def typeError : Kind := under exception "TypeError"
def attributeError : Kind := under exception "AttributeError"
def frozenInstanceError : Kind := under attributeError "FrozenInstanceError"
def lookupError : Kind := under exception "LookupError"
def keyError : Kind := under lookupError "KeyError"
def indexError : Kind := under lookupError "IndexError"
def runtimeError : Kind := under exception "RuntimeError"
def assertionError : Kind := under exception "AssertionError"
def arithmeticError : Kind := under exception "ArithmeticError"
def overflowError : Kind := under arithmeticError "OverflowError"

/-- Misuse of the engine itself. -/
def engineError : Kind := under exception "PyparsaError"
def conversionError : Kind := mk "ConversionError" 0 [engineError, typeError]
def infallibleViolation : Kind := mk "InfallibleViolation" 0 [engineError, assertionError]
def nonAdvancingParser : Kind := mk "NonAdvancingParser" 0 [engineError, runtimeError]
def unwrapFailed : Kind := mk "UnwrapFailed" 0 [engineError, valueError]

/-- The declared error of a parser that cannot fail. Nothing is of this kind. -/
def infallible : Kind := under exception "Infallible"

/-- A union of errors: each value wraps the error it was converted from. -/
def errorUnion : Kind := under exception "ErrorUnion"

def parseFailure : Kind := under exception "ParseFailure"
def endOfInput : Kind := under parseFailure "EndOfInput"
def wordError : Kind := under parseFailure "WordError"
def takeError : Kind := under parseFailure "TakeError"
def noAlternatives : Kind := under parseFailure "NoAlternatives"
def expectedEndOfInput : Kind := under parseFailure "ExpectedEndOfInput"

/-- The standard kinds, each with the place it is defined in; the kinds of the language itself have
none. -/
def standard : List (Kind × Option String) :=
  let plain := [object, type, noneType, int, bool, str, list, tuple, function, method,
    baseException, exception, valueError, typeError, attributeError, lookupError, keyError,
    indexError, runtimeError, assertionError, arithmeticError, overflowError].map (·, none)
  let inside (place : String) (ks : List Kind) := ks.map (·, some place)
  plain ++ inside "types" [sequenceAlias] ++ inside "dataclasses" [frozenInstanceError] ++
  inside "typing" [generic, classAlias, unpackedAlias] ++ inside "pyparsa.Cursor" [span, cursor] ++
  inside "pyparsa.Parser" [ok, err, parser, unwrapFailed] ++
  inside "pyparsa.Errors" [engineError, conversionError, infallibleViolation, nonAdvancingParser,
    infallible, errorUnion, parseFailure] ++
  inside "pyparsa.Builtins" [endOfInput, wordError, takeError, takeFailure] ++
  inside "pyparsa.Combinators" [noAlternatives, expectedEndOfInput] ++ inside "user" [code]

def standard? (name : String) : Option Kind :=
  (standard.map Prod.fst).find? (·.name == name)

/-- The name of a kind with the place it is defined in. -/
def path (k : Kind) : String :=
  match standard.lookup k with
  | some none => k.name
  | some (some place) => place ++ "." ++ k.name
  | none => "user." ++ k.name

def shown (k : Kind) : String := s!"<class '{k.path}'>"

/-- The name of a kind in messages. -/
def label (k : Kind) : String := if k = sequenceAlias then k.path else k.name

/-- The last part of a name that has dots in it. -/
def lastName (k : Kind) : String :=
  String.ofList (k.name.toList.reverse.takeWhile (· != '.')).reverse

/-- Exceptions, the values that can be raised. -/
def isException (k : Kind) : Bool := k.isA baseException

/-- Infallible or a kind that inherits from it. -/
def isInfallible (k : Kind) : Bool := k.isA infallible

/-- The kinds whose values have a storage of their own. -/
def storages : List Kind := [int, str, list, tuple, baseException, span]

/-- The kinds nothing can inherit from. -/
def sealed : List Kind := [bool, noneType, function, method, takeFailure]

/-- The storages that the bases bring. -/
def storagesOf (bases : List Kind) : List Kind := storages.filter fun s => bases.any (·.isA s)

/-- The storages that vary in size. -/
def varying : List Kind := [int, tuple]

/-- A kind made by the program whose storage varies in size. -/
def isWidened (k : Kind) : Bool := k.serial != 0 && varying.any k.isA

/-- The first kinds made by the program in the lines of the bases whose storage varies in size. Each
lays it out in a way of its own. -/
def layoutsOf (bases : List Kind) : List Kind :=
  if (storagesOf bases).any varying.contains then
    ((bases.flatMap lineage).filter fun k => k.isWidened && !k.bases.any isWidened).eraseDups
  else []

/-- Whether a kind can be made by the program of the bases: none of them is sealed, and they agree
on the storage and on its layout. -/
def fit (bases : List Kind) : Bool :=
  !bases.any sealed.contains && (storagesOf bases).length ≤ 1 && (layoutsOf bases).length ≤ 1

end ParserAlgebra.Kind
