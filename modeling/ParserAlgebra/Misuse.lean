import ParserAlgebra.Text.Clip

/-!
# Misuses of values

A value is misused when it is handled in a way that its kind does not allow. A misuse is a cause;
`Misuse.message` is what is said of it. The names of kinds are cut short in messages, to a size that
each message has of its own.
-/

namespace ParserAlgebra

inductive Misuse where
  | heirNotAKind
  | inheritedNotAKind
  | classifierNotAKind
  /-- A place in a text that is neither a number nor left out. -/
  | indexNotANumber
  | unhashable (kind : String)
  | tooFewArguments (callee : String) (missing : List String)
  | tooManyArguments (callee : String) (least most given : Nat)
  | beyondMost (kind : String) (most given : Nat)
  | takesAtMost (kind : String) (most given : Nat)
  /-- The one kind of nothing was called with arguments. -/
  | noArgumentsTaken (callee : String)
  /-- A kind whose values are made of nothing was called with arguments. -/
  | nothingTaken (kind : String)
  | notIterable (kind : String)
  | notAnInteger (kind : String)
  | notAnIndex (kind : String)
  | baseWithoutText
  | encodingNotText (argument kind : String)
  | textNotBytes
  | notBytes (kind : String)
  /-- What should stand for a value as text is no text. -/
  | formNotText (kind : String)
  | literalNotText (kind : String)
  | alternativeNotText (kind : String)
  | noLength (kind : String)
  | notSubscriptable (kind : String)
  | kindNotSubscriptable (name : String)
  | notGeneric (shown : String)
  | notCallable (kind : String)
  | notInstantiable (name : String)
  /-- Two kinds between which the sign has no meaning. -/
  | unsupported (sign left right : String)
  /-- Two kinds that have no order between them. -/
  | unordered (sign left right : String)
  /-- A value of another kind cannot be put after the items of the kind. -/
  | notConcatenable (kind other : String)
  | notRaisable
  | givenTwice (callee argument : String)
  /-- The bases of a kind do not agree on what its values hold. -/
  | basesApart
  /-- The bases of a kind cannot be put in order. -/
  | basesUnordered
  deriving DecidableEq, Repr

namespace Misuse

/-- A noun with the ending for the given number. -/
def counted (noun : String) (n : Nat) : String := if n = 1 then noun else noun ++ "s"

/-- Names with commas between them, the last one set off by a word. -/
def enumerated : List String → String
  | [] => ""
  | [a] => a
  | [a, b] => a ++ " and " ++ b
  | names => ", ".intercalate names.dropLast ++ ", and " ++ names.getLastD ""

/-- How many positions a call has, the value that is made counted as the first. -/
def positions (least most : Nat) : String :=
  if least = most then toString (most + 1) else s!"from {least + 1} to {most + 1}"

def message : Misuse → String
  | heirNotAKind => "issubclass() arg 1 must be a class"
  | inheritedNotAKind => "issubclass() arg 2 must be a class, a tuple of classes, or a union"
  | classifierNotAKind => "isinstance() arg 2 must be a type, a tuple of types, or a union"
  | indexNotANumber => "slice indices must be integers or None or have an __index__ method"
  | unhashable kind => s!"unhashable type: '{clip 200 kind}'"
  | tooFewArguments callee missing =>
    s!"{callee}.__init__() missing {missing.length} required positional " ++
      counted "argument" missing.length ++ ": " ++
      enumerated (missing.map fun n => "'" ++ n ++ "'")
  | tooManyArguments callee least most given =>
    s!"{callee}.__init__() takes " ++ positions least most ++ " positional " ++
      counted "argument" (most + 1) ++ s!" but {given + 1} were given"
  | beyondMost kind most given =>
    s!"{kind} expected at most {most} " ++ counted "argument" most ++ s!", got {given}"
  | takesAtMost kind most given =>
    s!"{kind}() takes at most {most} " ++ counted "argument" most ++ s!" ({given} given)"
  | noArgumentsTaken callee => s!"{callee} takes no arguments"
  | nothingTaken kind => s!"{clip 200 kind}() takes no arguments"
  | notIterable kind => s!"'{clip 200 kind}' object is not iterable"
  | notAnInteger kind =>
    s!"int() argument must be a string, a bytes-like object or a real number, not " ++
      s!"'{clip 200 kind}'"
  | notAnIndex kind => s!"'{clip 200 kind}' object cannot be interpreted as an integer"
  | baseWithoutText => "int() can't convert non-string with explicit base"
  | encodingNotText argument kind => s!"str() argument '{argument}' must be str, not {clip 50 kind}"
  | textNotBytes => "decoding str is not supported"
  | notBytes kind => s!"decoding to str: need a bytes-like object, {clip 80 kind} found"
  | formNotText kind => s!"__str__ returned non-string (type {clip 200 kind})"
  | literalNotText kind =>
    s!"startswith first arg must be str or a tuple of str, not {clip 100 kind}"
  | alternativeNotText kind => s!"tuple for startswith must only contain str, not {clip 100 kind}"
  | noLength kind => s!"object of type '{clip 200 kind}' has no len()"
  | notSubscriptable kind => s!"'{clip 200 kind}' object is not subscriptable"
  | kindNotSubscriptable name => s!"type '{clip 200 name}' is not subscriptable"
  | notGeneric shown => s!"{shown} is not a generic class"
  | notCallable kind => s!"'{clip 200 kind}' object is not callable"
  | notInstantiable name => s!"Cannot instantiate typing.{name}"
  | unsupported sign left right =>
    s!"unsupported operand type(s) for {sign}: '{clip 100 left}' and '{clip 100 right}'"
  | unordered sign left right =>
    s!"'{sign}' not supported between instances of '{clip 100 left}' and '{clip 100 right}'"
  | notConcatenable kind other =>
    s!"can only concatenate {kind} (not \"{clip 200 other}\") to {kind}"
  | notRaisable => "exceptions must derive from BaseException"
  | givenTwice callee argument =>
    s!"{callee}.__init__() got multiple values for argument '{argument}'"
  | basesApart => "the bases of a class do not agree"
  | basesUnordered => "the bases of a class cannot be put in order"

end Misuse

end ParserAlgebra
