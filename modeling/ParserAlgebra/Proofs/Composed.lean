import ParserAlgebra.Proofs.Building

/-!
# Parsers without parsing functions

The parsers that are built from the library's own primitives and combinators (`Parser.Composed`). The
host program takes part in them only by functions on values, and what it may do depends on what a
function is used for. The parsers that are made during the run are no parts of the term, so what is
asked of them is asked of the functions that make them.
-/

namespace ParserAlgebra

/-- What a parser uses a function of the host program for. -/
inductive Use where
  /-- To make another value of a value, or another error of an error. -/
  | mapping
  /-- To make another value of a value, or to refuse it. -/
  | refining
  /-- To make the parser that goes on after a value. -/
  | making
  /-- To make the parser that was deferred. -/
  | deferring
  deriving DecidableEq

namespace Parser

variable {ω : Type}

/-- The parsers whose functions satisfy `F`, each for its use, and that have no parsing functions of
the host program in them. -/
inductive Composed (F : Use → ω → Prop) : Parser ω → Prop
  | nextChar : Composed F nextChar
  | word : Composed F word
  | whitespace : Composed F whitespace
  | eof : Composed F eof
  | take (literal : String) : Composed F (take literal)
  | pure (v : Value ω) : Composed F (pure v)
  | fail (e : Value ω) : Composed F (fail e)
  | seq {p q : Parser ω} (hp : Composed F p) (hq : Composed F q) : Composed F (seq p q)
  | bind {p : Parser ω} {next : ω} (hp : Composed F p) (hf : F .making next) :
      Composed F (bind p next)
  | map {p : Parser ω} {f : Mapping ω} (hp : Composed F p)
      (hf : ∀ g, f = .function g → F .mapping g) : Composed F (map p f)
  | refine {p : Parser ω} {f : ω} (hp : Composed F p) (hf : F .refining f) (err : Declared ω) :
      Composed F (refine p f err)
  | convert {p : Parser ω} (hp : Composed F p) (target : Declared ω) : Composed F (convert p target)
  | mapErr {p : Parser ω} {f : ω} (hp : Composed F p) (hf : F .mapping f) (err : Declared ω) :
      Composed F (mapErr p f err)
  | alt {p q : Parser ω} (hp : Composed F p) (hq : Composed F q) : Composed F (alt p q)
  | rewind {p : Parser ω} (hp : Composed F p) : Composed F (rewind p)
  | option (default : Value ω) {p : Parser ω} (hp : Composed F p) : Composed F (option default p)
  | many {p : Parser ω} (hp : Composed F p) : Composed F (many p)
  | sepBy1 {p q : Parser ω} (hp : Composed F p) (hq : Composed F q) : Composed F (sepBy1 p q)
  | sepBy {p q : Parser ω} (hp : Composed F p) (hq : Composed F q) : Composed F (sepBy p q)
  | later (d : Declared ω) {factory : ω} (hf : F .deferring factory) : Composed F (later d factory)
  | trace (label : String) : Composed F (trace label)
  | traced (label : String) {p : Parser ω} (hp : Composed F p) : Composed F (traced label p)

namespace Composed

variable {F : Use → ω → Prop} {p : Parser ω}

theorem foldl_alt {ps : List (Parser ω)} (hp : p.Composed F) (hps : ∀ q ∈ ps, q.Composed F) :
    (ps.foldl Parser.alt p).Composed F := by
  induction ps generalizing p with
  | nil => exact hp
  | cons q ps ih =>
    exact ih (.alt hp (hps q (List.mem_cons_self ..))) fun r hr => hps r (List.mem_cons_of_mem _ hr)

/-- A choice among such parsers is one of them. -/
theorem choice [HostObject ω] {σ : Type} {c : Context ω} {s t : State ω σ} {os : List (Operand ω)}
    (hos : ∀ o ∈ os, ∀ q, o.toParser none = .ok q → q.Composed F)
    (h : mkChoice os c s = (.returned p, t)) : p.Composed F := by
  rcases os with _ | ⟨o, os⟩
  · obtain ⟨rfl, -⟩ : Parser.fail noAlternatives = p ∧ s = t := by simpa [mkChoice] using h
    exact .fail _
  · obtain ⟨q, qs, ho, hqs, -, rfl, -⟩ := mkChoice_returned.1 h
    refine foldl_alt (hos o (List.mem_cons_self ..) q ho) fun r hr => ?_
    obtain ⟨o', ho', hr⟩ := hqs.mem hr
    exact hos o' (List.mem_cons_of_mem _ ho') r hr

end Composed

end Parser

end ParserAlgebra
