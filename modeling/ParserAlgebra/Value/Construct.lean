import ParserAlgebra.Cursor.Mark
import ParserAlgebra.Text.Slice
import ParserAlgebra.Value.Text

/-!
# Making values of a kind

A kind is called with arguments and makes a value of that kind (`Value.construct`). First the
nearest kind of the lineage that brings a storage makes the plain data (`Value.allot`). Then the
kinds of the lineage prepare the object in turn, nearest first (`Value.prepare`): each checks the
arguments, hands arguments on to the next one, and sets its attributes; some hand nothing on. An
attribute of an outcome is fixed once the outcome is prepared: no other kind can set it
(`Value.fixes`).
-/

namespace ParserAlgebra

/-- The exception that a fault is raised as. -/
def Fault.exception {ω : Type} (f : Fault) : Value ω :=
  Value.exception f.kind [.str f.message] .nil

namespace Value

variable {ω : Type} [HostObject ω]

/-- The exceptions that make their objects themselves. -/
def makingExceptions : List Kind :=
  [.baseException, .exception, .valueError, .typeError, .lookupError, .indexError, .runtimeError,
   .assertionError, .arithmeticError, .overflowError]

/-- The exceptions that take any arguments. -/
def nativeExceptions : List Kind := makingExceptions ++ [.attributeError, .keyError]

/-- The kind `k`, which needs arguments of the given names and allows `most` of them, was called
with too few or too many. -/
def arityFault (k : Kind) (needed : List String) (most : Nat) (args : List (Value ω)) : Fault :=
  match needed.drop args.length with
  | [] => .misused (.tooManyArguments k.name needed.length most args.length)
  | missing => .misused (.tooFewArguments k.name missing)

/-! ## Reading plain data off values -/

def items? (v : Value ω) : Except Fault (List (Value ω)) :=
  match v.plain with
  | list items => .ok items
  | tuple items => .ok items
  | str s => .ok (s.toList.map fun c => str (String.singleton c))
  | w =>
    match w with
    | host o =>
      match HostObject.items? o with
      | some os => .ok (os.map host)
      | Option.none => .error (.misused (.notIterable v.kindOf.label))
    | _ => .error (.misused (.notIterable v.kindOf.label))

/-- The characters of a value read as an integer in a base. A value that is no numeral is shown. -/
def readNumeral (v : Value ω) (base : Nat) (s : String) : Except Fault Int :=
  match Numeral.readIn base s.toList with
  | .ok n => .ok n
  | .error .malformed => do .error (.notANumeral base (← v.shown?) .malformed)
  | .error flaw => .error (.notANumeral base "" flaw)

def toInteger (v : Value ω) : Except Fault Int :=
  match v.chars?, v.toInt? with
  | some s, _ => v.readNumeral 10 s
  | _, some n => .ok n
  | _, _ => .error (.misused (.notAnInteger v.kindOf.label))

def toIntegerIn (v base : Value ω) : Except Fault Int :=
  match base.toInt?, v.chars? with
  | Option.none, _ => .error (.misused (.notAnIndex base.kindOf.label))
  | some b, s =>
    if b ≠ 0 ∧ b < 2 ∨ 36 < b then .error .badBase
    else
      match s with
      | some s => v.readNumeral b.toNat s
      | Option.none => .error (.misused .baseWithoutText)

/-- A value as text, when it is told how to read it as bytes: nothing is bytes. -/
def decoded (v : Value ω) (how : List (Value ω)) : Fault :=
  let wrong := (["encoding", "errors"].zip how).find? fun (_, w) => w.chars?.isNone
  match wrong with
  | some (argument, w) =>
    let kind := match w with
      | none => "None"
      | w => w.kindOf.label
    .misused (.encodingNotText argument kind)
  | Option.none =>
    if v.isA .str then .misused .textNotBytes else .misused (.notBytes v.kindOf.label)

def length? (v : Value ω) : Except Fault Nat :=
  let lengthless : Fault := .misused (.noLength v.kindOf.label)
  match v.plain with
  | str s => .ok s.length
  | list items => .ok items.length
  | tuple items => .ok items.length
  | span s => .ok s.length
  | host o =>
    match HostObject.length? o with
    | some n => .ok n
    | Option.none => .error lengthless
  | _ =>
    if v.isA .span then do
      let stop ← v.get .stop
      let start ← v.get .start
      return ((stop.toInt?.getD 0) - (start.toInt?.getD 0)).toNat
    else .error lengthless

/-! ## Numbers and spans -/

/-- The number that stands on the right of a sign of order, after a value of a given kind. -/
def orderedAfter (left : Kind) (sign : String) (v : Value ω) : Except Fault Int :=
  match v.toInt? with
  | some n => .ok n
  | Option.none => .error (.misused (.unordered sign left.label v.kindOf.label))

/-- The number that stands on the left of a sign of order, before an integer. -/
def orderedBefore (v : Value ω) (sign : String) : Except Fault Int :=
  match v.toInt? with
  | some n => .ok n
  | Option.none => .error (.misused (.unordered sign v.kindOf.label Kind.int.label))

/-- The part of a value between two places, if it has parts. -/
def part? (source : Value ω) (start stop : Int) : Option (Value ω) :=
  match source.plain with
  | str s => some (str (String.ofList (slice s.toList start stop)))
  | list items => some (list (slice items start stop))
  | tuple items => some (tuple (slice items start stop))
  | _ => Option.none

/-- The bounds of a part of a value; they are compared from left to right, and what follows the
first that does not fit is not looked at. -/
def bounds? (source start stop : Value ω) : Except Fault (Int × Int) := do
  let invalid : Except Fault (Int × Int) := do
    let a ← start.text?
    let b ← stop.text?
    .error (.invalidSpan a b (← source.length?))
  let a ← orderedAfter .int "<=" start
  if a < 0 then invalid
  else
    let b ← orderedAfter start.kindOf "<=" stop
    if b < a then invalid
    else
      let n ← source.length?
      if n < b then invalid else return (a, b)

/-! ## Calling kinds -/

/-- How a kind makes the plain data that its values hold. -/
inductive Maker where
  | number | text | list | tuple
  | exception
  | refused
  deriving DecidableEq, Repr

def Maker.table : List (Kind × Maker) :=
  [(.int, number), (.str, text), (.list, list), (.tuple, tuple), (.infallible, refused)] ++
    makingExceptions.map (·, exception)

def Maker.ofKind? (k : Kind) : Option Maker := k.nearest? table

/-- An object while it is made. -/
structure Draft (ω : Type) where
  held : Value ω
  attributes : Attributes ω

/-- The attributes that the outcomes fix. -/
def fixedAttributes : List (Kind × List Attribute) := [(.ok, [.value]), (.err, [.error, .pos])]

/-- The objects of a kind have an attribute that is fixed. An exception that is nearer than the
outcome lets every attribute be set. -/
def fixes (k : Kind) (a : Attribute) : Bool :=
  (k.lineage.takeWhile (· ≠ .baseException)).any fun b =>
    ((fixedAttributes.lookup b).getD []).contains a

namespace Draft

def set (d : Draft ω) (a : Attribute) (v : Value ω) : Draft ω :=
  { d with attributes := .cons a v d.attributes }

/-- Sets an attribute of an object of kind `k`, unless it is fixed. -/
def assign (d : Draft ω) (k : Kind) (a : Attribute) (v : Value ω) : Except Fault (Draft ω) :=
  if fixes k a then .error (.frozen a.name) else .ok (d.set a v)

def empty : Draft ω := ⟨.none, .nil⟩

def holding (held : Value ω) : Draft ω := ⟨held, .nil⟩

end Draft

/-- The draft of a new value of kind `k`, with its plain data. A list is filled when it is
prepared. -/
def allot (k : Kind) (args : List (Value ω)) : Except Fault (Draft ω) :=
  match Maker.ofKind? k with
  | some .refused => .error .uninstantiable
  | some .number =>
    match args with
    | [] => .ok (.holding (int 0))
    | [v] => v.toInteger.map fun n => .holding (int n)
    | [v, base] => (toIntegerIn v base).map fun n => .holding (int n)
    | _ => .error (.misused (.takesAtMost Kind.int.name 2 args.length))
  | some .text =>
    match args with
    | [] => .ok (.holding (str ""))
    | [v] => v.text?.map fun s => .holding (str s)
    | [v, encoding] => .error (decoded v [encoding])
    | [v, encoding, errors] => .error (decoded v [encoding, errors])
    | _ => .error (.misused (.takesAtMost Kind.str.name 3 args.length))
  | some .tuple =>
    match args with
    | [] => .ok (.holding (tuple []))
    | [v] => v.items?.map fun items => .holding (tuple items)
    | _ => .error (.misused (.beyondMost Kind.tuple.name 1 args.length))
  | some .list => .ok (.holding (list []))
  | some .exception => .ok (Draft.empty.set .arguments (tuple args))
  | Option.none => .ok .empty

/-- The draft with the attributes of a span; its text is cut out at once. -/
def prepareSpan (made k : Kind) (args : List (Value ω)) (d : Draft ω) :
    Except Fault (Draft ω) :=
  match args with
  | [source, start, stop] => do
    let (a, b) ← bounds? source start stop
    let d ← d.assign made .source source
    let d ← d.assign made .start start
    let d ← d.assign made .stop stop
    match part? source a b with
    | some piece => return d.set .text piece
    | Option.none => return d
  | _ => .error (arityFault k ["source", "start", "end"] 3 args)

def prepareList (args : List (Value ω)) (d : Draft ω) : Except Fault (Draft ω) :=
  match args with
  | [] => .ok d
  | [v] => v.items?.map fun items => { d with held := list items }
  | _ => .error (.misused (.beyondMost Kind.list.name 1 args.length))

/-- The message of a conversion that is missing between two kinds, in a context. -/
def missingMessage (source target : Value ω) (context : Option String) :
    Except Fault (Value ω) := do
  let source ← source.name?
  return str (Fault.missingConversion source (← target.name?) context).message

/-- Prepares an object of the kind `made` along the rest of its lineage. -/
def prepare (made : Kind) : List Kind → List (Value ω) → Draft ω → Except Fault (Draft ω)
  | [], _, d => .ok d
  | k :: rest, args, d =>
    if nativeExceptions.contains k then .ok (d.set .arguments (tuple args))
    else if k = .errorUnion then
      match args with
      | [cause] => do (← prepare made rest args d).assign made .cause cause
      | _ => .error (arityFault k ["cause"] 1 args)
    else if k = .endOfInput ∨ k = .wordError ∨ k = .noAlternatives then
      match args with
      | [] => prepare made rest [] d
      | _ => .error (arityFault k [] 0 args)
    else if k = .takeError then
      let set (expected reason : Value ω) : Except Fault (Draft ω) := do
        let d ← prepare made rest [expected, reason] d
        (← d.assign made .expected expected).assign made .reason reason
      match args with
      | [expected] => set expected (mismatch .noMatch)
      | [expected, reason] => set expected reason
      | _ => .error (arityFault k ["expected"] 2 args)
    else if k = .expectedEndOfInput then
      let set (found : Value ω) : Except Fault (Draft ω) := do
        (← prepare made rest [found] d).assign made .found found
      match args with
      | [] => set (str "")
      | [found] => set found
      | _ => .error (arityFault k [] 1 args)
    else if k = .nonAdvancingParser then
      match args with
      | [pos] => do
        let d ← d.assign made .pos pos
        prepare made rest [str (Fault.notAdvancing (← pos.text?)).message] d
      | _ => .error (arityFault k ["pos"] 1 args)
    else if k = .conversionError then
      match args with
      | [source, target] => do
        prepare made rest [← missingMessage source target Option.none] d
      | [source, target, context] => do
        let place ← if ← context.truthy then some <$> context.text? else .ok Option.none
        prepare made rest [← missingMessage source target place] d
      | _ => .error (arityFault k ["source", "target"] 3 args)
    else if k = .span then prepareSpan made k args d
    else if k = .ok then
      match args with
      | [v] => .ok (d.set .value v)
      | _ => .error (arityFault k ["value"] 1 args)
    else if k = .err then
      match args with
      | [e] => .ok ((d.set .pos none).set .error e)
      | [e, p] => .ok ((d.set .pos p).set .error e)
      | _ => .error (arityFault k ["error"] 2 args)
    else if k = .code then
      match args with
      | [n] => d.assign made .number n
      | _ => .error (arityFault k ["n"] 1 args)
    else if k = .list then prepareList args d
    else prepare made rest args d

/-- The kinds that prepare their objects in a way of their own. -/
def preparing : List Kind :=
  nativeExceptions ++ [.errorUnion, .endOfInput, .wordError, .noAlternatives, .takeError,
    .expectedEndOfInput, .nonAdvancingParser, .conversionError, .span, .ok, .err, .code, .list]

/-- Whether the objects of a kind can be made of arguments at all. -/
def takesArguments (k : Kind) : Bool :=
  (Maker.ofKind? k).isSome || k.lineage.any preparing.contains

/-- A finished object. The plain kinds have values of their own; a span does so if it is a part of a
text. -/
def finish (k : Kind) (d : Draft ω) : Value ω :=
  let object := Value.object k d.held d.attributes 0 Option.none
  let read (a : Attribute) := (d.attributes.get? a).getD none
  if k = .int ∨ k = .str ∨ k = .list ∨ k = .tuple then d.held
  else if k = .ok then ok (read .value)
  else if k = .err then err (read .error) (read .pos)
  else if k = .span then
    match (read .source).chars? with
    | some s => Mark.spanTo s.toList (.ofValue (read .start)) (.ofValue (read .stop))
    | Option.none => object
  else object

def construct (k : Kind) (args : List (Value ω)) : Except Fault (Value ω) :=
  if k = .bool then
    match args with
    | [] => .ok (bool false)
    | [v] => v.truthy.map bool
    | _ => .error (.misused (.beyondMost k.name 1 args.length))
  else if k = .noneType then
    match args with
    | [] => .ok none
    | _ => .error (.misused (.noArgumentsTaken k.name))
  else if !args.isEmpty && !takesArguments k then
    .error (.misused (.nothingTaken k.label))
  else do return finish k (← prepare k k.lineage args (← allot k args))

end Value

end ParserAlgebra
