import ParserAlgebra.Value.Basic

/-!
# Equality of values

A truth value is a number, and a span is its text. Failures of one kind are equal when their
arguments are, unions of one kind when they wrap equal errors, outcomes of one kind when what they
hold is equal, codes when their numbers are; any other object is equal to itself alone.

One of two values is asked about the other: the left one, unless the right one's kind inherits from
the left one's. If it does not know the other's kind the other is asked. What is compared depends on
the two kinds alone (`Comparison.between`). Parts are compared in the same way in their turn, with
the part of the value that is asked on the left; the items of lists and tuples and what outcomes
hold are also equal if they are one object.

Two values that are to be told apart in a set are compared by their hash first (`Value.hash?`), and
a list has none. Neither can be asked of an object without the attribute that is compared.
-/

namespace ParserAlgebra

/-- What the values of a kind are compared by. -/
inductive Measure where
  | number | text | list | tuple
  | span
  | success | failure | code
  | arguments
  | cause
  deriving DecidableEq, Repr

namespace Measure

def table : List (Kind × Measure) :=
  [(.int, number), (.str, text), (.list, list), (.tuple, tuple), (.span, span), (.ok, success),
   (.err, failure), (.code, code), (.parseFailure, arguments), (.errorUnion, cause)]

def ofKind? (k : Kind) : Option Measure := k.nearest? table

end Measure

/-- What of two values is compared. -/
inductive Comparison where
  | number | text | list | tuple
  | spans
  | piece
  | success | failure | code | arguments | cause
  /-- Nothing: they differ. -/
  | never
  | identity
  deriving DecidableEq, Repr

namespace Comparison

/-- What a value of kind `k` compares of itself with a value of kind `l`, if it knows that kind. -/
def known? (k l : Kind) : Option Comparison :=
  let within (p : Bool) (c : Comparison) : Option Comparison := if p then some c else none
  match Measure.ofKind? k with
  | some .number => within (l.isA .int) number
  | some .text => within (l.isA .str) text
  | some .list => within (l.isA .list) list
  | some .tuple => within (l.isA .tuple) tuple
  | some .span => if l.isA .span then some spans else within (l.isA .str) piece
  | some .success => within (l = k) success
  | some .failure => within (l = k) failure
  | some .code => some (if l.isA .code then code else never)
  | some .arguments => within (l = k) arguments
  | some .cause => within (l = k) cause
  | none => none

/-- What is compared of a value of kind `k` and one of kind `l` on its right, and whether it is the
left one that is asked. -/
def between (k l : Kind) : Comparison × Bool :=
  let left := (known? k l).map (·, true)
  let right := (known? l k).map (·, false)
  ((if k ≠ l ∧ l.isA k = true then right <|> left else left <|> right)).getD (identity, true)

/-- What is compared of a value of kind `k` and one of kind `l`, and whether it is the first that is
asked; `first` tells whether the first one stands on the left. -/
def of (first : Bool) (k l : Kind) : Comparison × Bool :=
  if first then between k l else ((between l k).1, !(between l k).2)

end Comparison

namespace Value

variable {ω : Type} [HostObject ω]

/-- Two values are the same object, as far as this can be told: objects by their marks, an object without
a mark by nothing. The objects of the host program are not told apart. -/
def identical : Value ω → Value ω → Bool
  | none, none => true
  | mismatch a, mismatch b => a == b
  | kind a, kind b => decide (a = b)
  | object _ _ _ m _, object _ _ _ n _ => m == n && m != 0
  | _, _ => false

/-- A text is equal to a value that is a text if the characters are the same; a code is equal to
codes alone, even if it is a text. -/
def isText (v : Value ω) (s : String) : Bool :=
  (Comparison.between .str v.kindOf).1 == .text && v.chars? == some s

/-- The text of a span is equal to a text. What is cut out of a list is equal to no text. -/
def sharesText (s text : Value ω) : Except Fault Bool := do
  return ((← s.get .text).chars?.map text.isText).getD false

/-- Compares by what is not in the parts of the values. -/
def equalFlat (first : Bool) (c : Comparison) (v w : Value ω) : Except Fault Bool :=
  match c with
  | .number => .ok (v.toInt? == w.toInt?)
  | .text => .ok (v.chars? == w.chars?)
  | .piece => if first then v.sharesText w else w.sharesText v
  | .identity => .ok (v.identical w)
  | _ => .ok false

mutual
/-- Compares two values by what is given; `first` tells whether it is the first that is asked. -/
def equalBy (first : Bool) (c : Comparison) : Value ω → Value ω → Except Fault Bool
  | list xs, w =>
    if c = .list then
      if xs.length = w.entries.length then equalAll first xs w.entries else .ok false
    else equalFlat first c (list xs) w
  | tuple xs, w =>
    if c = .tuple then equalAll first xs w.entries else equalFlat first c (tuple xs) w
  | ok v, w =>
    if c = .success then do
      let w ← w.get .value
      let (c, asked) := Comparison.of first v.kindOf w.kindOf
      if v.identical w then return true else equalBy asked c v w
    else equalFlat first c (ok v) w
  | err e p, w =>
    if c = .failure then do
      let f ← w.get .error
      let q ← w.get .pos
      let (c, asked) := Comparison.of first e.kindOf f.kindOf
      let same ← if e.identical f then .ok true else equalBy asked c e f
      let (c, asked) := Comparison.of first p.kindOf q.kindOf
      if !same then return false
      else if p.identical q then return true
      else equalBy asked c p q
    else equalFlat first c (err e p) w
  | span s, w =>
    if c = .spans then do return (← w.get .text).chars? == some s.text
    else equalFlat first c (span s) w
  | object k held attributes m chained, w =>
    let equalOf (a : Attribute) (same : Bool) : Except Fault Bool := do
      let w ← w.get a
      equalAt first a same ((attributes.unset k a).map fun v => v.identical w) attributes w
    match c with
    | .list | .tuple => equalBy first c held w
    | .spans => equalOf .text false
    | .success => equalOf .value true
    | .failure => do
      let _ ← attributes.read k .error
      let _ ← w.get .error
      if ← equalOf .error true then equalOf .pos true else return false
    | .code => equalOf .number false
    | .arguments => equalOf .arguments false
    | .cause => equalOf .cause false
    | c => equalFlat first c (object k held attributes m chained) w
  | v, w => equalFlat first c v w
/-- Compares items one by one, up to the first that differ. -/
def equalAll (first : Bool) : List (Value ω) → List (Value ω) → Except Fault Bool
  | [], [] => .ok true
  | v :: vs, w :: ws => do
    let (c, asked) := Comparison.of first v.kindOf w.kindOf
    let same ← if v.identical w then .ok true else equalBy asked c v w
    if same then equalAll first vs ws else return false
  | _, _ => .ok false
/-- Compares an attribute with a value; `same` tells whether one object is equal to itself unasked,
and `unset` is the answer for an attribute that is not set. -/
def equalAt (first : Bool) (a : Attribute) (same : Bool) (unset : Except Fault Bool) :
    Attributes ω → Value ω → Except Fault Bool
  | .nil, _ => unset
  | .cons b v rest, w =>
    if b = a then
      if same && v.identical w then .ok true
      else
        let (c, asked) := Comparison.of first v.kindOf w.kindOf
        equalBy asked c v w
    else equalAt first a same unset rest w
end

def equal (v w : Value ω) : Except Fault Bool :=
  let (c, first) := Comparison.between v.kindOf w.kindOf
  equalBy first c v w

/-- A piece of a hash. Hashes are equal when all their pieces are. -/
inductive HashPiece where
  | nothing
  | number (n : Int)
  | text (s : String)
  | kind (k : Kind)
  | mark (n : Nat)
  /-- A group of the given number of hashes follows. -/
  | group (size : Nat)
  deriving DecidableEq

/-- The hash of a number: its remainder by a Mersenne prime, with its sign; minus one is kept
free. -/
def hashInt (n : Int) : Int :=
  let r := n.tmod (Int.pow 2 61 - 1)
  if r = -1 then -2 else r

/-- The hash of a group of numbers, mixed from theirs in words of 64 bits. Minus one is kept
free. -/
def mixed (hashes : List Int) : Int :=
  let start : UInt64 := 2870177450012600261
  let step (word : UInt64) (n : Int) : UInt64 :=
    let word := word + UInt64.ofInt n * 14029467366897019727
    (word <<< 31 ||| word >>> 33) * 11400714785074694791
  let word := hashes.foldl step start + (UInt64.ofNat hashes.length ^^^ (start ^^^ 3527539))
  let n := (word.toNat : Int).bmod (Nat.pow 2 64)
  if n = -1 then 1546275796 else n

/-- The number that a hash is, if it is one. -/
def hashNumber? : List HashPiece → Option Int
  | [.number n] => some n
  | _ => Option.none

def grouped (members : List (List HashPiece)) : List HashPiece :=
  match members.mapM hashNumber? with
  | some ns => [.number (mixed ns)]
  | Option.none => .group members.length :: members.flatten

/-- The hash of a text; the empty text has the hash of zero. -/
def hashText (s : String) : HashPiece := if s.isEmpty then .number 0 else .text s

mutual
def hash? : Value ω → Except Fault (List HashPiece)
  | none => .ok [.nothing]
  | bool b => .ok [.number (if b then 1 else 0)]
  | int n => .ok [.number (hashInt n)]
  | str s => .ok [hashText s]
  | list _ => .error (.misused (.unhashable Kind.list.name))
  | tuple items => do return grouped (← hashAll? items)
  | span s => .ok [hashText s.text]
  | mismatch m => .ok [.text m.name]
  | kind k => .ok [.kind k]
  | ok v => do return grouped [← hash? v]
  | err e p => do
    let h ← hash? e
    return grouped [h, ← hash? p]
  | object k held attributes mark _ =>
    let at? (a : Attribute) :=
      hashAt? a ((attributes.unset k a).map fun _ => [.nothing]) attributes
    match Measure.ofKind? k with
    | some .number | some .text | some .tuple => hash? held
    | some .list => .error (.misused (.unhashable k.label))
    | some .span => at? .text
    | some .success => do return grouped [← at? .value]
    | some .failure => do
      let h ← at? .error
      return grouped [h, ← at? .pos]
    | some .code => do return grouped [[.text Kind.code.name], ← at? .number]
    | some .arguments => do return grouped [[.kind k], ← at? .arguments]
    | some .cause =>
      match attributes.get? .cause with
      | some c => .ok (grouped [[.kind k], [.kind c.kindOf]])
      | Option.none => (attributes.unset k .cause).map fun _ => []
    | Option.none => .ok [.mark mark]
  | host o => .ok [.text (HostObject.shown o)]
def hashAll? : List (Value ω) → Except Fault (List (List HashPiece))
  | [] => .ok []
  | v :: vs => do
    let h ← hash? v
    return h :: (← hashAll? vs)
def hashAt? (a : Attribute) (unset : Except Fault (List HashPiece)) :
    Attributes ω → Except Fault (List HashPiece)
  | .nil => unset
  | .cons b v rest => if b = a then hash? v else hashAt? a unset rest
end

end Value

end ParserAlgebra
