import ParserAlgebra.Parser.Host

/-!
# Converting errors

When parsers are put together their kinds of error are joined (`Conversion.join`), which checks that
the errors of the second can be converted. When one of them fails, its error is converted into the
joined kind (`Conversion.coerce`). The conversions themselves are declared one by one
(`Conversion.register`) or several at a time (`Conversion.absorb`).
-/

namespace ParserAlgebra.Conversion

variable {ω σ : Type} [HostObject ω]

/-- Checks that errors declared as `source` can stand where `target` is declared. Undeclared errors
pass: they are only checked when they occur. -/
def demand (source target : Declared ω) (context : String) : Action ω σ Unit := do
  if source.isUndeclared then return
  if ← (← Action.context).registry.canConvert source target then return
  let s ← source.name?
  let t ← target.name?
  Action.log .debug .errors s!"missing conversion {s} -> {t} in {context}"
  Action.fault (.missingConversion s t (if context.isEmpty then none else some context))

/-- The kind of error of two parsers together. -/
def join (first second : Declared ω) (context : String) : Action ω σ (Declared ω) := do
  if (← first.kind?).isInfallible then return second
  demand second first context
  return first

/-- Wraps an error: the target kind is called with it. An exception that wraps another is chained to
it. -/
def wrap (target : Kind) (error : Value ω) : Except Fault (Value ω) := do
  match ← Value.construct target [error] with
  | .object k held attributes mark chained =>
    if k.isException && error.kindOf.isException then
      return .object k held attributes mark (some error.kindOf)
    else return .object k held attributes mark chained
  | v => return v

/-- Converts an error into the target; only a kind can be called to wrap it. -/
def apply (cb : Callbacks ω σ) (target : Declared ω) (error : Value ω) :
    Conversion ω → Action ω σ (Value ω)
  | wrapping =>
    match target with
    | .kind t => wrap t error
    | .plain v => Action.fault (.misused (.notCallable v.kindOf.label))
  | function f => cb.call f error

/-- Converts an error into the declared kind. An error that is of that kind is left as it is. -/
def coerce (cb : Callbacks ω σ) (error : Value ω) (target : Declared ω) :
    Action ω σ (Value ω) := do
  if target.isUndeclared then return error
  match target.holds? error.kindOf, target with
  | some true, _ => return error
  | some false, .kind t =>
    match (← Action.context).registry.find? error.kindOf t with
    | some c => apply cb target error c
    | none =>
      Action.note .debug .errors (error.shown?.map fun e => "cannot convert " ++ e ++ " into " ++ t.name)
      Action.fault (.missingConversion error.kindOf.name t.name none)
  | some false, .plain v =>
    match ← (← Action.context).registry.stray? error.kindOf v with
    | some c => apply cb target error c
    | none => Action.fault v.nameless
  | none, _ => Action.fault (.misused .classifierNotAKind)

/-! ## Declaring conversions -/

/-- Declares a conversion, and says so in the log. Nothing is declared out of Infallible; what is
declared into a plain value fails and leaves a stray, or its source if the value has no hash. -/
def register (r : Registry ω) (source target : Declared ω) (c : Conversion ω) :
    Registry ω × Except Fault Record :=
  match source.kind?, target with
  | .error f, _ => (r, .error f)
  | .ok s, target =>
    if s.isInfallible then (r, .error .infallibleSource)
    else
      match target with
      | .kind t =>
        (r.insert s t c, .ok ⟨.debug, .errors, s!"registered conversion {s.name} -> {t.name}"⟩)
      | .plain v =>
        match v.hash? with
        | .ok _ => (r.insertStray ⟨s, v, c⟩, .error v.nameless)
        | .error f => (r.addBegun s, .error f)

/-- Declares that `target` wraps the errors of each of the sources. What is declared before a fault
stays declared. -/
def absorb (r : Registry ω) (target : Declared ω) :
    List (Declared ω) → Registry ω × List Record × Option Fault
  | [] => (r, [], none)
  | source :: sources =>
    match register r source target .wrapping with
    | (s, .error f) => (s, [], some f)
    | (s, .ok entry) =>
      let (t, log, f) := absorb s target sources
      (t, entry :: log, f)

/-- Takes a conversion back. Where none is declared nothing happens, but a list can be looked up in
no table. -/
def unregister (r : Registry ω) (source target : Declared ω) : Except Fault (Registry ω) :=
  match source, target with
  | .kind s, .kind t => .ok ((r.erase s t).settle s)
  | .plain v, _ => v.hash?.map fun _ => r
  | .kind s, .plain v =>
    if r.hasSource s then do
      let _ ← v.hash?
      return (← r.eraseStray s v).settle s
    else .ok r

end ParserAlgebra.Conversion
