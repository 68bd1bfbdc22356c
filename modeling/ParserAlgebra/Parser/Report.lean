import ParserAlgebra.Parser.Run

/-!
# Using parsers

A host program describes its functions once (`Host`); the callbacks that a run needs are tied from
it and a bound on how often a run may go through the host (`Host.callbacks`). Beside running a
parser on a text there are reports of how it went.
-/

namespace ParserAlgebra

/-- How a parser is run. -/
abbrev Runner (ω σ : Type) := Parser ω → Action ω σ (Outcome ω)

/-- The functions of a host program. They may run parsers in their turn. -/
structure Host (ω σ : Type) where
  call : Runner ω σ → ω → Value ω → Action ω σ (Value ω)
  step : Runner ω σ → ω → Action ω σ (Value ω)
  force : Runner ω σ → ω → Action ω σ (Parser ω)
  operand : ω → Operand ω

namespace Host

variable {ω σ : Type} [HostObject ω]

/-- The callbacks with a given way to run parsers. -/
def tied (h : Host ω σ) (resume : Runner ω σ) (rounds : Nat) : Callbacks ω σ where
  call := h.call resume
  step := h.step resume
  force := h.force resume
  operand := h.operand
  resume := resume
  rounds := rounds

/-- The callbacks when at most `depth` parsers made during the run are nested in each other, and no
repetition takes more than the given rounds. -/
def callbacks (h : Host ω σ) (rounds : Nat) : (depth : Nat) → Callbacks ω σ
  | 0 => h.tied (fun _ => Action.exhausted) rounds
  | depth + 1 => h.tied (fun p => p.run (h.callbacks rounds depth)) rounds

end Host

namespace Outcome

variable {ω : Type} [HostObject ω]

/-- The report of a failure with its line, its column and a caret under its place. The error is
asked for last. -/
def describe (res : Outcome ω) (source : List Char) : Except Fault String := do
  let place ← (← res.pos).place?
  report (res.error >>= Value.text?) source place

end Outcome

namespace Value

variable {ω σ : Type} [HostObject ω]

/-- The value of a success. The error of a failure is raised. Of a value that is both, the nearer
kind counts. -/
def unwrap (v : Value ω) : Action ω σ (Value ω) := do
  match v.kindOf.nearest? [(.ok, true), (.err, false)] with
  | some true => v.get .value
  | some false =>
    let e ← v.get .error
    if e.kindOf.isException then Action.raise e else Action.fault (.unwrapped (← e.shown?))
  | Option.none => Action.fault (v.lacks "unwrap")

def describe (v : Value ω) (source : List Char) : Except Fault String :=
  if v.isA .err then (Outcome.ofValue v).describe source
  else .error (v.lacks "describe")

end Value

namespace Parser

variable {ω σ : Type} [HostObject ω]

/-- Parses a text from its start, on a cursor of its own. -/
def parseText (cb : Callbacks ω σ) (p : Parser ω) (text : List Char) : Action ω σ (Outcome ω) :=
  Action.withInput (.ofList text) (p.run cb)

/-- Parses a text and writes to the log how it went. What is said of the outcome is asked for even
if it is not written. -/
def parseLogged (cb : Callbacks ω σ) (p : Parser ω) (text : List Char) :
    Action ω σ (Outcome ω) :=
  Action.withInput (.ofList text) do
    let res ← p.run cb
    if ← res.succeeded then
      let c ← Action.cursor
      logShown .loops s!"parse succeeded at position {c.pos}: " (← res.value)
    else
      let pos ← res.pos
      let error ← res.error
      Action.note .debug .loops do
        return "parse failed at position " ++ (← pos.text?) ++ ": " ++ (← error.shown?)
    return res

def printed (text : List Char) (res : Outcome ω) : Except Fault String := do
  let said ← if ← res.succeeded then res.value >>= Value.text? else res.toValue.describe text
  return said ++ "\n"

end Parser

end ParserAlgebra
