import ParserAlgebra.Value.Construct

/-!
# Settings

Two settings govern every parser: whether a repetition checks that its body makes progress, and how
many characters of the input a trace shows. They are read once from two variables of the
environment, and may be set to any value later.
-/

namespace ParserAlgebra

/-- The words for no. -/
def refusals : List String := ["0", "false", "no", "off", ""]

/-- A variable that is set says yes unless it is one of a few words for no, or blank. -/
def readFlag (raw : Option String) (default : Bool) : Bool :=
  match raw with
  | none => default
  | some s =>
    let word := String.ofList ((trimBoth isBlank s.toList).map Char.toLower)
    !refusals.contains word

/-- A variable that is set has to be an integer. -/
def readInteger (name : String) (raw : Option String) (default : Int) : Except Fault Int :=
  match raw with
  | none => .ok default
  | some s => (Numeral.read s.toList).mapError fun _ => .settingNotANumeral name s

structure Settings (ω : Type) where
  checkProgress : Value ω := .bool true
  tracePreview : Value ω := .int 30

namespace Settings

variable {ω : Type}

/-- The settings given by the two variables. -/
def ofEnvironment (checkProgress tracePreview : Option String) : Except Fault (Settings ω) := do
  let preview ← readInteger "PYPARSA_TRACE_PREVIEW" tracePreview 30
  return { checkProgress := .bool (readFlag checkProgress true), tracePreview := .int preview }

def set (s : Settings ω) (name : String) (value : Value ω) : Except Fault (Settings ω) :=
  if name = "check_progress" then .ok { s with checkProgress := value }
  else if name = "trace_preview" then .ok { s with tracePreview := value }
  else if name = "self" then .error (.misused (.givenTwice "Settings" name))
  else .error (.unknownSetting name)

/-- Changes several settings, or none if one of them is unknown; the first that is told. -/
def setAll (s : Settings ω) : List (String × Value ω) → Except Fault (Settings ω)
  | [] => .ok s
  | (name, value) :: changes => do (← s.set name value).setAll changes

/-- Whether repetitions check the progress of their bodies. -/
def checksProgress [HostObject ω] (s : Settings ω) : Except Fault Bool := s.checkProgress.truthy

end Settings

/-- How many characters an excerpt of the input shows: all of them when the preview is `None`. -/
def previewEnd? {ω : Type} (preview : Value ω) (length : Nat) : Except Fault Int :=
  match preview with
  | .none => .ok length
  | v =>
    match v.toInt? with
    | some n => .ok n
    | none => .error (.misused .indexNotANumber)

end ParserAlgebra
