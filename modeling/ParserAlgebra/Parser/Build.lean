import ParserAlgebra.Conversion

/-!
# Putting parsers together

The combinators that put two kinds of error together check, before the parser is there, that a
conversion is declared (`Parser.mkSeq`, `Parser.mkAlt`, `Parser.mkRefine`, `Parser.mkConvert`). A
constant has to have a shown form (`Parser.mkPure`, `Parser.mkFail`). The others always succeed;
they are the constructors of `Parser` themselves.
-/

namespace ParserAlgebra.Parser

variable {ω σ : Type} [HostObject ω]

def mkSeq (p q : Parser ω) : Action ω σ (Parser ω) := do
  let _ ← Conversion.join p.declares q.declares s!"{p.name} & {q.name}"
  return .seq p q

/-- `p`, then `q`, with the value of `p`. -/
def mkAfter (p q : Parser ω) : Action ω σ (Parser ω) := return .map (← mkSeq p q) .first

/-- `p`, then `q`, with the value of `q`. -/
def mkBefore (p q : Parser ω) : Action ω σ (Parser ω) := return .map (← mkSeq p q) .second

/-- `p`, then the parser that `next` makes of its value. -/
def mkBind (p : Parser ω) (next : ω) : Action ω σ (Parser ω) := do
  let _ ← p.declares.kind?
  return .bind p next

/-- `p` with a function on its value that may fail with an error declared as `err`. -/
def mkRefine (p : Parser ω) (f : ω) (err : Declared ω) : Action ω σ (Parser ω) := do
  let _ ← Conversion.join p.declares err s!"{p.name}.and_then"
  return .refine p f err

def mkConvert (p : Parser ω) (target : Declared ω) : Action ω σ (Parser ω) := do
  Conversion.demand p.declares target s!"{p.name}.convert_err"
  return .convert p target

def mkAlt (p q : Parser ω) : Action ω σ (Parser ω) := do
  let _ ← Conversion.join p.declares q.declares s!"{p.name} | {q.name}"
  return .alt p q

/-- Always succeeds with a value, which the parser's name shows. -/
def mkPure (v : Value ω) : Except Fault (Parser ω) := v.shown?.map fun _ => .pure v

/-- Always fails with an error, which the parser's name shows. -/
def mkFail (e : Value ω) : Except Fault (Parser ω) := e.shown?.map fun _ => .fail e

/-- The error of a choice among no parsers. -/
def noAlternatives : Value ω := .exception .noAlternatives [] .nil

/-- The first parser that succeeds. The parsers are adapted one by one as the choice grows. -/
def mkChoice : List (Operand ω) → Action ω σ (Parser ω)
  | [] => return .fail noAlternatives
  | o :: os => do
    os.foldlM (fun p (o : Operand ω) => do mkAlt p (← o.toParser none)) (← o.toParser none)

/-- `p` as often as possible, with nothing as the value. -/
def skipMany (p : Parser ω) : Parser ω := .map (.many p) .discard

/-- `p` as often as possible, at least once. -/
def mkMany1 (p : Parser ω) : Action ω σ (Parser ω) := return .map (← mkSeq p (.many p)) .cons

end ParserAlgebra.Parser
