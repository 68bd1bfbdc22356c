import ParserAlgebra.Cursor.Span
import ParserAlgebra.Datum
import ParserAlgebra.Fault

/-!
# Values

What parsers return and report: plain data, spans, kinds, outcomes as data, and objects, among them
all exceptions and failure values. An object is of a kind that may be made by the program. If that
kind inherits from a kind of plain data the object holds such data, and it has the attributes that
the kinds of its lineage set when it was made. The parameter `ω` stands for the objects of the host
program, of which only their kind and the ways they are shown are known here.

A kind behaves as the nearest kind of its lineage that says how (`Kind.nearest?`). The values of the
plain kinds have constructors of their own, so that for them this is a case distinction.
-/

namespace ParserAlgebra

/-- Why a literal did not match. -/
inductive Mismatch where
  /-- Fewer characters remain than the literal has. -/
  | noSpace
  | noMatch
  deriving DecidableEq, Repr

namespace Mismatch

def name : Mismatch → String
  | noSpace => "NO_SPACE"
  | noMatch => "NO_MATCH"

def reason : Mismatch → String
  | noSpace => "ran out of input"
  | noMatch => "did not match"

end Mismatch

/-- What objects can have set. -/
inductive Attribute where
  | arguments
  | value
  | error | pos
  | cause
  | expected | reason
  | found
  | number
  | source | start | stop | text
  deriving DecidableEq, Repr

namespace Attribute

def name : Attribute → String
  | arguments => "args"
  | value => "value"
  | error => "error"
  | pos => "pos"
  | cause => "cause"
  | expected => "expected"
  | reason => "kind"
  | found => "found"
  | number => "n"
  | source => "source"
  | start => "start"
  | stop => "end"
  | text => "text"

end Attribute

mutual
inductive Value (ω : Type) where
  | none
  | bool (b : Bool)
  | int (n : Int)
  | str (s : String)
  | list (items : List (Value ω))
  | tuple (items : List (Value ω))
  | span (s : Span)
  | mismatch (m : Mismatch)
  | kind (k : Kind)
  | ok (value : Value ω)
  /-- A failure, reported at a place; the place is nothing when there is none. -/
  | err (error pos : Value ω)
  /-- An object made by calling the kind `k`, and the plain data that it holds. The mark tells
  objects of the same content apart, and is zero as long as nobody asks; the chained kind is the kind
  of the exception that this one was wrapped around. -/
  | object (k : Kind) (held : Value ω) (attributes : Attributes ω) (mark : Nat)
      (chained : Option Kind)
  /-- An object of the host program. -/
  | host (o : ω)
/-- The attributes of an object; the first of a name counts. -/
inductive Attributes (ω : Type) where
  | nil
  | cons (a : Attribute) (value : Value ω) (rest : Attributes ω)
end

/-- What is known of the objects of a host program. -/
class HostObject (ω : Type) where
  kind : ω → Kind
  shown : ω → String
  /-- The plain form. -/
  text : ω → String := shown
  name? : ω → Option String
  holder : ω → Holder := fun o => .aValue (kind o).label
  length? : ω → Option Nat := fun _ => none
  /-- What is met when one goes through the object. -/
  items? : ω → Option (List ω) := fun _ => none
  /-- What an answer tells of the object. -/
  present : ω → Datum

namespace Attributes

variable {ω : Type}

def get? (a : Attribute) : Attributes ω → Option (Value ω)
  | nil => none
  | cons b v rest => if b = a then some v else get? a rest

@[simp] theorem get?_nil (a : Attribute) : get? a (nil : Attributes ω) = none := rfl

theorem get?_cons (a b : Attribute) (v : Value ω) (rest : Attributes ω) :
    get? a (cons b v rest) = if b = a then some v else get? a rest := rfl

end Attributes

namespace Value

variable {ω : Type}

/-- The exception of kind `k` with the given arguments and further attributes. -/
def exception (k : Kind) (args : List (Value ω)) (attributes : Attributes ω) : Value ω :=
  object k none (.cons .arguments (tuple args) attributes) 0 Option.none

def takeError (literal : String) (m : Mismatch) : Value ω :=
  exception .takeError [str literal, mismatch m]
    (.cons .expected (str literal) (.cons .reason (mismatch m) .nil))

def leftOver (found : String) : Value ω :=
  exception .expectedEndOfInput [str found] (.cons .found (str found) .nil)

def kindOf [HostObject ω] : Value ω → Kind
  | none => .noneType
  | bool _ => .bool
  | int _ => .int
  | str _ => .str
  | list _ => .list
  | tuple _ => .tuple
  | span _ => .span
  | mismatch _ => .takeFailure
  | kind _ => .type
  | ok _ => .ok
  | err _ _ => .err
  | object k _ _ _ _ => k
  | host o => HostObject.kind o

/-- A value is of a kind or of one that inherits from it. -/
def isA [HostObject ω] (v : Value ω) (k : Kind) : Bool := v.kindOf.isA k

/-- The number that tells objects apart. -/
def mark : Value ω → Nat
  | object _ _ _ m _ => m
  | _ => 0

/-- The plain data in a value. -/
def plain : Value ω → Value ω
  | object _ held _ _ _ => held
  | v => v

/-- The number that a value counts as, for the kinds that are numbers. -/
def toInt? (v : Value ω) : Option Int :=
  match v.plain with
  | bool b => some (if b then 1 else 0)
  | int n => some n
  | _ => Option.none

/-- The text that a value is, for the kinds that are texts. -/
def chars? (v : Value ω) : Option String :=
  match v.plain with
  | str s => some s
  | _ => Option.none

/-- The items of a list or a tuple. -/
def entries (v : Value ω) : List (Value ω) :=
  match v.plain with
  | list items => items
  | tuple items => items
  | _ => []

/-! ## Attributes -/

variable [HostObject ω]

/-- What lacks an attribute that is asked of a value. -/
def holder : Value ω → Holder
  | kind k => .aClass k.name
  | host o => HostObject.holder o
  | v => .aValue v.kindOf.label

/-- Asked for an attribute that it does not have. -/
def lacks (v : Value ω) (attributeName : String) : Fault := .noAttribute v.holder attributeName

/-- The name of a value that has one. -/
def name? : Value ω → Except Fault String
  | kind k => .ok k.name
  | host o =>
    match HostObject.name? o with
    | some n => .ok n
    | Option.none => .error (.noAttribute (HostObject.holder o) "__name__")
  | v => .error (v.lacks "__name__")

/-- A value stands where a class is named. -/
def nameless (v : Value ω) : Fault := v.lacks "__name__"

/-- Asked for an item by what has none. -/
def withoutItems (v : Value ω) : Misuse :=
  match v.holder with
  | .aClass n => .kindNotSubscriptable n
  | _ => .notSubscriptable v.kindOf.label

end Value

/-- What reading an attribute comes to that was not set. A failure without a place is at nothing. A
span has places for its attributes, and it has no text if what it is a part of has no parts. -/
def Attributes.unset {ω : Type} [HostObject ω] (k : Kind) (attributes : Attributes ω)
    (a : Attribute) : Except Fault (Value ω) :=
  let missing (a : Attribute) : Except Fault (Value ω) :=
    .error (.noAttribute (.aValue k.label) a.name)
  let vacant (a : Attribute) : Except Fault (Value ω) :=
    .error (.noAttribute (.aPlace k.label) a.name)
  match a with
  | .pos => if k.isA .err then .ok .none else missing .pos
  | .text =>
    match attributes.get? .source with
    | some source => .error (.misused source.withoutItems)
    | none => vacant .source
  | .source => vacant .source
  | .start => vacant .start
  | .stop => vacant .stop
  | a => missing a

def Attributes.read {ω : Type} [HostObject ω] (k : Kind) (attributes : Attributes ω)
    (a : Attribute) : Except Fault (Value ω) :=
  match attributes.get? a with
  | some v => .ok v
  | none => attributes.unset k a

namespace Value

variable {ω : Type} [HostObject ω]

def get (v : Value ω) (a : Attribute) : Except Fault (Value ω) :=
  match v, a with
  | ok w, .value => .ok w
  | err e _, .error => .ok e
  | err _ p, .pos => .ok p
  | span s, .text => .ok (str s.text)
  | span s, .start => .ok (int s.start)
  | span s, .stop => .ok (int s.stop)
  | object k _ attributes _ _, a => attributes.read k a
  | v, a => .error (v.lacks a.name)

@[simp] theorem get_ok_value (v : Value ω) : (ok v).get .value = .ok v := rfl

@[simp] theorem get_err_error (e p : Value ω) : (err e p).get .error = .ok e := rfl

@[simp] theorem get_err_pos (e p : Value ω) : (err e p).get .pos = .ok p := rfl

/-! ## Truth -/

/-- How the values of a kind count as true or false. -/
inductive Truth where
  | plain
  | extent
  | always | never
  deriving DecidableEq, Repr

namespace Truth

/-- The kinds that say when their values are true. -/
def decided : List (Kind × Truth) :=
  [(.int, plain), (.span, extent), (.ok, always), (.err, never)]

/-- The kinds whose values are true unless they are empty. -/
def sized : List (Kind × Truth) := [(.str, plain), (.list, plain), (.tuple, plain)]

def ofKind (k : Kind) : Truth := (k.nearest? decided <|> k.nearest? sized).getD always

end Truth

def bound (k : Kind) (attributes : Attributes ω) (a : Attribute) : Except Fault Int :=
  (attributes.read k a).map fun v => v.toInt?.getD 0

/-- A value counts as false when it is nothing, zero, empty or a failure. It cannot be told of a
span without bounds. -/
def truthy : Value ω → Except Fault Bool
  | none => .ok false
  | bool b => .ok b
  | int n => .ok (n != 0)
  | str s => .ok !s.isEmpty
  | list items => .ok !items.isEmpty
  | tuple items => .ok !items.isEmpty
  | span s => .ok (s.start < s.stop)
  | err _ _ => .ok false
  | object k held attributes _ _ =>
    match Truth.ofKind k with
    | .plain => truthy held
    | .extent => do
      let stop ← bound k attributes .stop
      return (← bound k attributes .start) < stop
    | .always => .ok true
    | .never => .ok false
  | host o => .ok ((HostObject.length? o).getD 1 != 0)
  | _ => .ok true

/-- The place of a failure as a number, unless it is nothing. -/
def place? (pos : Value ω) : Except Fault (Option Int) :=
  match pos with
  | none => .ok Option.none
  | p =>
    match p.toInt? with
    | some n => .ok (some n)
    | Option.none => .error (.misused (.unordered "<" Kind.int.name p.kindOf.label))

end Value

end ParserAlgebra
