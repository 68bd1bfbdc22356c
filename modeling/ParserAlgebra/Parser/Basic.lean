import ParserAlgebra.Cursor.Place
import ParserAlgebra.Registry

/-!
# Parsers

A parser is a term: primitives, functions of the host program, and combinators over them. What it
declares as its error and the name it goes by are read off the term (`Parser.declares`,
`Parser.name`); what it does is said by `Parser.run`. The names of `pure` and `fail` show the value,
so these parsers are built only of values that have a shown form.

Two parsers are put together under one kind of error, that of the first unless it is infallible; so
the declared error of a sequence or of a choice is that of its first part that can fail.
-/

namespace ParserAlgebra

/-- The result of a parse: a value, or an error reported at a place. The place is a number unless a
parsing function of the host program says otherwise. -/
inductive Outcome (ω : Type) where
  | ok (value : Value ω)
  | err (error pos : Value ω)
  /-- An object of a kind that inherits from the kind of a success or of a failure. It may lack what
  is asked of it, and it may count as a failure although it is a success. -/
  | derived (object : Value ω)

namespace Outcome

variable {ω : Type}

def toValue : Outcome ω → Value ω
  | ok v => .ok v
  | err e pos => .err e pos
  | derived o => o

/-- A value that is of the kind of an outcome, as one. -/
def ofValue : Value ω → Outcome ω
  | .ok v => ok v
  | .err e pos => err e pos
  | o => derived o

/-- A failure at a place of the input. -/
def failedAt (error : Value ω) (m : Mark ω) : Outcome ω := .err error m.value

@[simp] theorem ofValue_toValue_ok (v : Value ω) : ofValue (ok v).toValue = ok v := rfl

@[simp] theorem ofValue_toValue_err (e pos : Value ω) :
    ofValue (err e pos).toValue = err e pos := rfl

@[simp] theorem toValue_ofValue (v : Value ω) : (ofValue v).toValue = v := by
  cases v <;> rfl

variable [HostObject ω]

/-- Whether an outcome counts as a success. -/
def succeeded : Outcome ω → Except Fault Bool
  | ok _ => .ok true
  | err _ _ => .ok false
  | derived o => o.truthy

def value (o : Outcome ω) : Except Fault (Value ω) := o.toValue.get .value

def error (o : Outcome ω) : Except Fault (Value ω) := o.toValue.get .error

def pos (o : Outcome ω) : Except Fault (Value ω) := o.toValue.get .pos

@[simp] theorem succeeded_ok (v : Value ω) : (ok v).succeeded = .ok true := rfl

@[simp] theorem succeeded_err (e pos : Value ω) : (err e pos).succeeded = .ok false := rfl

@[simp] theorem value_ok (v : Value ω) : (ok v).value = .ok v := rfl

@[simp] theorem error_err (e pos : Value ω) : (err e pos).error = .ok e := rfl

@[simp] theorem pos_err (e pos : Value ω) : (err e pos).pos = .ok pos := rfl

end Outcome

/-- What a parser does to the value of a success. -/
inductive Mapping (ω : Type) where
  | first
  | second
  /-- The first of a pair before the list that is the second. -/
  | cons
  | discard
  | function (f : ω)

inductive Parser (ω : Type) where
  /-- A parsing function of the host program. -/
  | function (name : String) (declares : Declared ω) (step : ω)
  | nextChar
  /-- The characters up to the next blank, at least one. -/
  | word
  /-- The blanks that come next; the value is their number. -/
  | whitespace
  /-- Nothing, at the end of the input. -/
  | eof
  /-- The characters of a literal. -/
  | take (literal : String)
  | pure (value : Value ω)
  | fail (error : Value ω)
  /-- One parser, then another; the value is the pair of their values. -/
  | seq (first second : Parser ω)
  /-- A parser, then the parser that a function makes of its value. -/
  | bind (first : Parser ω) (next : ω)
  | map (inner : Parser ω) (f : Mapping ω)
  /-- A function that may fail is applied to the value; it declares the error `err`. -/
  | refine (inner : Parser ω) (f : ω) (err : Declared ω)
  | convert (inner : Parser ω) (target : Declared ω)
  /-- A function makes another error of the error. -/
  | mapErr (inner : Parser ω) (f : ω) (err : Declared ω)
  /-- One parser, or another from the same place. -/
  | alt (first second : Parser ω)
  /-- A failure leaves the cursor where it was. -/
  | rewind (inner : Parser ω)
  /-- A default in place of a failure. -/
  | option (default : Value ω) (inner : Parser ω)
  /-- As often as possible. -/
  | many (inner : Parser ω)
  | sepBy1 (item sep : Parser ω)
  | sepBy (item sep : Parser ω)
  /-- The parser that a function of the host program makes when it is first needed. -/
  | later (declares : Declared ω) (factory : ω)
  | trace (label : String)
  /-- Writes to the log where a parser begins and how it ends. -/
  | traced (label : String) (inner : Parser ω)

namespace Parser

variable {ω : Type} [HostObject ω]

/-- A name, or the one of a parsing function if it is empty. -/
def orParse (name : String) : String := if name.isEmpty then "parse" else name

def name : Parser ω → String
  | function n _ _ => n
  | nextChar => "next_char"
  | word => "word"
  | whitespace => "whitespace"
  | eof => "eof"
  | take literal => s!"take({quoted literal})"
  | pure v => s!"pure({v.shown})"
  | fail e => s!"fail({e.shown})"
  | seq p q => s!"{p.name} & {q.name}"
  | bind p f => s!"{p.name} >>= " ++ (HostObject.name? f).getD "f"
  | map p _ => s!"{p.name}.map"
  | refine p _ _ => s!"{p.name}.and_then"
  | convert p _ => orParse p.name
  | mapErr p _ _ => s!"{p.name}.map_err"
  | alt p q => s!"{p.name} | {q.name}"
  | rewind p => s!"try {p.name}"
  | option _ p => s!"option({p.name})"
  | many p => s!"many({p.name})"
  | sepBy1 p s => s!"sep_by1({p.name}, {s.name})"
  | sepBy p s => s!"sep_by(sep_by1({p.name}, {s.name}))"
  | later _ f => "lazy(" ++ (HostObject.name? f).getD "factory" ++ ")"
  | trace label => s!"trace({label})"
  | traced label _ => s!"traced({label})"

def declares : Parser ω → Declared ω
  | function _ d _ => d
  | nextChar => .kind .endOfInput
  | word => .kind .wordError
  | whitespace => .infallible
  | eof => .kind .expectedEndOfInput
  | take _ => .kind .takeError
  | pure _ => .infallible
  | fail e => .kind e.kindOf
  | seq p q => Registry.joined p.declares q.declares
  | bind p _ => if p.declares.isInfallible then .undeclared else p.declares
  | map p _ => p.declares
  | refine p _ err => Registry.joined p.declares err
  | convert _ target => target
  | mapErr _ _ err => err
  | alt p q => Registry.joined p.declares q.declares
  | rewind p => p.declares
  | option _ _ => .infallible
  | many _ => .infallible
  | sepBy1 p _ => p.declares
  | sepBy _ _ => .infallible
  | later d _ => d
  | trace _ => .infallible
  | traced _ p => p.declares

/-- The shown form of a parser; there is none if what it declares cannot be written. -/
def shown? (p : Parser ω) : Except Fault String := do
  return "<Parser " ++ p.name ++ ": " ++ (← p.declares.shown?) ++ ">"

end Parser

end ParserAlgebra
