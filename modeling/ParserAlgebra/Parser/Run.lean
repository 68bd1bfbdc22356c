import ParserAlgebra.Conversion

/-!
# Running parsers

`Parser.run` says what each parser does at the cursor. A combinator that converts errors does so
through `Parser.retarget`, which also catches a parser that was declared infallible and failed.

The parsers that are made during a run, by `bind` and `later`, are run through the host program's
callbacks; everything else is a recursion over the term.
-/

namespace ParserAlgebra

variable {ω σ : Type} [HostObject ω]

/-! ## The pieces of the input that messages show -/
namespace Preview

/-- The start of the input that is left, as many characters as the settings say. -/
def leftover (settings : Settings ω) (c : Cursor ω) : Except Fault String := do
  let stop ← previewEnd? settings.tracePreview c.remaining
  return String.ofList (slice c.rest 0 stop)

/-- The input that is left, cut short with an ellipsis. -/
def ahead (settings : Settings ω) (c : Cursor ω) : Except Fault String := do
  let stop ← c.further settings.tracePreview
  let piece := String.ofList (slice c.source c.pos stop)
  return if stop - c.pos < c.remaining then piece ++ "..." else piece

end Preview

namespace Mapping

def apply (cb : Callbacks ω σ) : Mapping ω → Value ω → Action ω σ (Value ω)
  | first, .tuple (v :: _) => return v
  | second, .tuple (_ :: v :: _) => return v
  | cons, .tuple (v :: .list vs :: _) => return .list (v :: vs)
  | discard, _ => return .none
  | function f, v => cb.call f v
  | _, v => return v

end Mapping

namespace Parser

/-- An outcome of a parsing function: a failure without a place is reported at the cursor, and what
is no outcome is a fault. -/
def normalise (name : String) (v : Value ω) : Action ω σ (Outcome ω) := do
  if v.isA .err then
    match ← v.get .pos with
    | .none => return .failedAt (← v.get .error) (← Action.save)
    | _ => return .ofValue v
  else if v.isA .ok then return .ofValue v
  else Action.fault (.notAnOutcome name (← v.shown?))

@[simp] theorem normalise_ok (name : String) (v : Value ω) :
    normalise (σ := σ) name (.ok v) = Pure.pure (.ok v) := by
  have h : Kind.ok.isA .err = false := by decide
  have h' : Kind.ok.isA .ok = true := by decide
  simp [normalise, Value.isA, Value.kindOf, h, h', Outcome.ofValue]

@[simp] theorem normalise_err (name : String) (e : Value ω) (n : Int) :
    normalise (σ := σ) name (.err e (.int n)) = Pure.pure (.err e (.int n)) := by
  have h : Kind.err.isA .err = true := by decide
  simp [normalise, Value.isA, Value.kindOf, h, Outcome.ofValue]

@[simp] theorem normalise_err_none (name : String) (e : Value ω) :
    normalise (σ := σ) name (.err e .none) = do return .failedAt e (← Action.save) := by
  have h : Kind.err.isA .err = true := by decide
  simp [normalise, Value.isA, Value.kindOf, h]

/-- The failure `res` of a parser that declares `source`, with its error converted into `target`. -/
def retarget (cb : Callbacks ω σ) (name : String) (source target : Declared ω)
    (res : Outcome ω) : Action ω σ (Outcome ω) := do
  if (← source.kind?).isInfallible then
    Action.fault (.infallibleFailed name (← (← res.error).shown?))
  else
    let error ← Conversion.coerce cb (← res.error) target
    return .err error (← res.pos)

/-- Moves over the longest run of the class `p`, and returns its length. Where there is no such
character the cursor stays as it is. -/
def skipRun (p : Char → Bool) : Action ω σ Nat := do
  let c ← Action.cursor
  let n := (c.rest.takeWhile p).length
  if n ≠ 0 then Action.setCursor (c.onTo (c.pos + n))
  return n

/-- Raises the fault of a repetition whose body stood still at a mark, if it did and such progress
is checked. -/
def checkProgress (channel : Level.Channel) (message : String) (mark : Mark ω) :
    Action ω σ Unit := do
  if ← (← Action.save).equal mark then
    if ← (← Action.context).settings.checksProgress then
      Action.log .warning channel message
      Action.fault (.notAdvancing (← mark.value.text?))

/-- Repeats `body` until it fails, and takes back what the failed attempt consumed. -/
def repeated (name : String) (body : Action ω σ (Outcome ω)) :
    Nat → List (Value ω) → Action ω σ (List (Value ω))
  | 0, _ => Action.exhausted
  | n + 1, done => do
    let mark ← Action.save
    let res ← body
    if ← res.succeeded then
      checkProgress .loops s!"many({name}) stopped: parser succeeded without consuming input" mark
      repeated name body n ((← res.value) :: done)
    else
      Action.rewindTo mark
      return done.reverse

/-- The items after the first: repeats `sep` and `item` until one of them fails, and takes back what
the failed round consumed. -/
def separated (name : String) (item sep : Action ω σ (Outcome ω)) :
    Nat → List (Value ω) → Action ω σ (List (Value ω))
  | 0, _ => Action.exhausted
  | n + 1, done => do
    let mark ← Action.save
    if ← (← sep).succeeded then
      let res ← item
      if ← res.succeeded then
        checkProgress .combinators
          s!"sep_by1({name}) stopped: separator and item consumed no input" mark
        separated name item sep n ((← res.value) :: done)
      else
        Action.rewindTo mark
        return done.reverse
    else
      Action.rewindTo mark
      return done.reverse

def runSepBy1 (cb : Callbacks ω σ) (name : String) (item sep : Action ω σ (Outcome ω)) :
    Action ω σ (Outcome ω) := do
  let first ← item
  if ← first.succeeded then
    return .ok (.list (← separated name item sep cb.rounds [← first.value]))
  else return first

/-- What a function that may fail has returned: an outcome, or a plain value of a success. The error
of a failure is converted; a failure without a place is reported at the cursor. -/
def refined (cb : Callbacks ω σ) (target : Declared ω) (v : Value ω) :
    Action ω σ (Outcome ω) := do
  if v.isA .err then
    let error ← Conversion.coerce cb (← v.get .error) target
    match ← v.get .pos with
    | .none => return .failedAt error (← Action.save)
    | pos => return .err error pos
  else if v.isA .ok then return .ofValue v
  else return .ok v

/-- Writes a value to the log. A value that has no shown form is left out. -/
def logShown (channel : Level.Channel) (said : String) (v : Value ω) : Action ω σ Unit :=
  Action.note .debug channel (v.shown?.map (said ++ ·))

def runTrace (label : String) : Action ω σ Unit := do
  if ← Action.writes .debug then
    let c ← Action.cursor
    let (line, column) := c.lineCol none
    let piece ← Preview.ahead (← Action.context).settings c
    Action.log .debug .combinators
      s!"{label}: {quoted piece} at line {line}, column {column}"

def run (cb : Callbacks ω σ) : Parser ω → Action ω σ (Outcome ω)
  | function name _ step => do normalise name (← cb.step step)
  | nextChar => do
    let c ← Action.cursor
    if c.atEnd then return .failedAt (.exception .endOfInput [] .nil) c.toMark
    Action.setCursor (c.onTo (c.pos + 1))
    return .ok (c.spanTo (c.pos + 1))
  | word => do
    let c ← Action.cursor
    let n ← skipRun fun c => !isBlank c
    if n = 0 then return .failedAt (.exception .wordError [] .nil) c.toMark
    return .ok (c.spanTo (c.pos + n))
  | whitespace => return .ok (.int (← skipRun isBlank))
  | eof => do
    let c ← Action.cursor
    if c.atEnd then return .ok .none
    let found ← Preview.leftover (← Action.context).settings c
    return .failedAt (.leftOver found) c.toMark
  | take literal => do
    let c ← Action.cursor
    let stop := c.pos + literal.length
    if c.startsWith literal.toList then
      Action.setCursor (c.onTo stop)
      return .ok (c.spanTo stop)
    let reason := if c.remaining < literal.length then Mismatch.noSpace else .noMatch
    return .failedAt (.takeError literal reason) c.toMark
  | pure v => return .ok v
  | fail e => return .failedAt e (← Action.save)
  | seq p q => do
    let target := Registry.joined p.declares q.declares
    let a ← p.run cb
    if ← a.succeeded then
      let b ← q.run cb
      if ← b.succeeded then
        let v ← a.value
        return .ok (.tuple [v, ← b.value])
      else retarget cb q.name q.declares target b
    else retarget cb p.name p.declares target a
  | bind p next => do
    let target := if p.declares.isInfallible then .undeclared else p.declares
    let res ← p.run cb
    if ← res.succeeded then
      let q ← (Operand.ofValue cb.operand (← cb.call next (← res.value))).toParser none
      let out ← cb.resume q
      if ← out.succeeded then return out
      else retarget cb q.name q.declares target out
    else retarget cb p.name p.declares target res
  | map p f => do
    let res ← p.run cb
    if ← res.succeeded then return .ok (← f.apply cb (← res.value)) else return res
  | refine p f err => do
    let target := Registry.joined p.declares err
    let res ← p.run cb
    if ← res.succeeded then
      match ← Action.catching (fun e => err.catches e.kindOf) (do cb.call f (← res.value)) with
      | .error e => return .failedAt (← Conversion.coerce cb e target) (← Action.save)
      | .ok w => refined cb target w
    else retarget cb p.name p.declares target res
  | convert p target => do
    let res ← p.run cb
    if ← res.succeeded then return res else retarget cb p.name p.declares target res
  | mapErr p f _ => do
    let res ← p.run cb
    if ← res.succeeded then return res
    else
      let error ← cb.call f (← res.error)
      return .err error (← res.pos)
  | alt p q => do
    let mark ← Action.save
    let res ← p.run cb
    if ← res.succeeded then return res
    else
      Action.rewindTo mark
      let res ← q.run cb
      if ← res.succeeded then return res
      else
        Action.rewindTo mark
        retarget cb q.name q.declares (Registry.joined p.declares q.declares) res
  | rewind p => do
    let mark ← Action.save
    let res ← p.run cb
    if ← res.succeeded then return res
    else
      Action.rewindTo mark
      return res
  | option default p => do
    let mark ← Action.save
    let res ← p.run cb
    if ← res.succeeded then return res
    else
      Action.rewindTo mark
      return .ok default
  | many p => return .ok (.list (← repeated p.name (p.run cb) cb.rounds []))
  | sepBy1 p s => runSepBy1 cb p.name (p.run cb) (s.run cb)
  | sepBy p s => do
    let mark ← Action.save
    let res ← runSepBy1 cb p.name (p.run cb) (s.run cb)
    if ← res.succeeded then return res
    else
      Action.rewindTo mark
      return .ok (.list [])
  | later _ factory => do cb.resume (← cb.force factory)
  | trace label => do
    runTrace label
    return .ok .none
  | traced label p => do
    runTrace label
    let mark ← Action.save
    let res ← p.run cb
    if ← res.succeeded then
      logShown .combinators (label ++ ": matched ") (← res.value)
      return res
    else
      Action.rewindTo mark
      runTrace (label ++ " backtracked")
      logShown .combinators (label ++ ": failed with ") (← res.error)
      return res

end Parser

end ParserAlgebra
