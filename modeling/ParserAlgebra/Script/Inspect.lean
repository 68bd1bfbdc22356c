import ParserAlgebra.Script.Reply
import ParserAlgebra.Value.Equality
import ParserAlgebra.Value.Present

/-!
# Looking at values, cursors and registries

What steps tell of the things that a script has made.
-/

namespace ParserAlgebra.Script

/-! ## Values -/

/-- A table of zeros and ones. -/
def matrix (vs : List α) (f : α → α → Except Fault Bool) : Except Fault Datum := do
  let rows ← vs.mapM fun v => do
    return Datum.list (← vs.mapM fun w => do return .number (if ← f v w then 1 else 0))
  return .list rows

/-- Whether one of some values is equal to the given one and has its hash. -/
def isAmong (v : Value Object × List Value.HashPiece) :
    List (Value Object × List Value.HashPiece) → Except Fault Bool
  | [] => .ok false
  | w :: ws => do
    if w.2 = v.2 then
      if ← w.1.equal v.1 then return true
    isAmong v ws

/-- The values of a set, which holds no two values of one hash that are equal. They are put in one
by one. -/
def distinctAmong (vs : List (Value Object)) :
    Except Fault (List (Value Object × List Value.HashPiece)) :=
  vs.foldlM (fun seen v => do
    let v := (v, ← v.hash?)
    return if ← isAmong v seen then seen else seen ++ [v]) []

def distinctFields (vs : List (Value Object)) : Except Fault Fields := do
  let distinct ← distinctAmong vs
  let hashes ← vs.mapM Value.hash?
  return [("distinct", .number distinct.length),
    ("same_hash", ← matrix hashes fun v w => .ok (v = w))]

def valueFields (v : Value Object) : Except Fault Fields := do
  let value ← v.present?
  let text ← v.text?
  return [("value", value), ("str", .text text), ("repr", .text (← v.shown?)),
    ("bool", .flag (← v.truthy))]

def spanFields (v : Value Object) : Except Fault Fields := do
  let piece ← v.get .text
  let text ← v.text?
  let shown ← v.shown?
  return [("text", ← piece.present?), ("str", .text text), ("repr", .text shown),
    ("len", .number (← v.length?)), ("bool", .flag (← v.truthy))]

def settingsDatum (s : Settings Object) : Except Fault Datum := do
  let checkProgress ← s.checkProgress.present?
  return .list [checkProgress, ← s.tracePreview.present?]

/-! ## The cursor -/

def lineColValue (c : Cursor Object) (pos : Option Int) : Value Object :=
  let (line, column) := c.lineCol pos
  .tuple [.int line, .int column]

/-- Whether the input goes on with a text or with one of a tuple of texts. -/
def startsWith (c : Cursor Object) (v : Value Object) : Except Fault Bool :=
  match v.plain with
  | .str s => .ok (c.startsWith s.toList)
  | .tuple items =>
    items.foldlM (fun found w =>
      match found, w.chars? with
      | true, _ => .ok true
      | false, some s => .ok (c.startsWith s.toList)
      | false, none => .error (.misused (.alternativeNotText w.kindOf.label))) false
  | _ => .error (.misused (.literalNotText v.kindOf.label))

/-- What is asked of the cursor, with the arguments that are given. -/
def cursorValue : CursorCall → List (Value Object) → Act (Value Object)
  | .rest, _ | .text, _ => return .str (String.ofList (← Action.cursor).rest)
  | .isEof, _ => return .bool (← Action.cursor).atEnd
  | .length, _ => return .int (← Action.cursor).remaining
  | .shown, _ => return .str (← (← Action.cursor).shown?)
  | .truth, _ => return .bool ((← Action.cursor).remaining != 0)
  | .peek, [] =>
    return ((← Action.cursor).peek?.map fun c => .str (String.singleton c)).getD .none
  | .save, [] => return (← Action.save).value
  | .advance, [] => do
    advanceBy (.int 1)
    return .none
  | .advance, [n] => do
    advanceBy n
    return .none
  | .take, [n] => move fun c => c.take n
  | .tryTake, [n] => do return (← move fun c => c.tryTake n).getD .none
  | .restore, [mark] => do
    restoreTo mark
    return .none
  | .sliceFrom, [mark] => do marked (← (← Action.cursor).sliceFrom mark)
  | .startsWith, [literal] => do return .bool (← startsWith (← Action.cursor) literal)
  | .lineCol, [] => do return lineColValue (← Action.cursor) none
  | .lineCol, [pos] => do return lineColValue (← Action.cursor) (← pos.place?)
  | _, args => Action.fault (.misused (.takesAtMost "Cursor" 1 args.length))

/-- What is asked of the cursor while there is none: of nothing. -/
def cursorlessValue : CursorCall → Act (Value Object)
  | .text | .shown => return .str (Value.none : Value Object).shown
  | .truth => return .bool false
  | .length => Action.fault (.misused (.noLength Kind.noneType.name))
  | _ => Action.fault ((Value.none : Value Object).lacks "source")

/-! ## Kinds and conversions -/

def lineageDatum (k : Kind) : Datum := .list (k.lineage.map fun b => .text b.name)

/-- The edges of a registry by names, in the order of the names. -/
def edgesDatum (r : Registry Object) : Datum :=
  let pairs := r.edges.map fun (s, t) => (s.name, t.name)
  let sorted := pairs.mergeSort fun a b => a.1 < b.1 || (a.1 = b.1 && !(b.2 < a.2))
  .list (sorted.map fun (s, t) => .list [.text s, .text t])

/-! ## Parsers -/

/-- The shown form of a parser, for objects that are parsers. -/
def parserDatum? : Value Object → Except Fault (Option Datum)
  | .host (.parser p _) => do return some (.text (← p.shown?))
  | _ => .ok none

def parsableFields (v : Value Object) : Fields :=
  let (isParsable, protocol) := match v with
    | .host (.parsable c) => (c.isParsable, c.followsProtocol)
    | .host (.ofClass c) => (false, c.followsProtocol)
    | _ => (false, false)
  [("is_parsable", .flag isParsable), ("protocol", .flag protocol)]

def outcomeFields (source : List Char) (res : Outcome Object) : Except Fault Fields := do
  if ← res.succeeded then return [("ok", ← (← res.value).present?)]
  else
    let error ← (← res.error).present?
    let place ← (← res.pos).present?
    return [("err", error), ("at", place),
      ("describe", .text (← res.toValue.describe source))]

/-- The value and the failure of a parse, of which one is nothing. -/
def resultFields (res : Outcome Object) : Except Fault Fields := do
  if ← res.succeeded then return [("value", ← (← res.value).present?), ("failure", .null)]
  else return [("value", .null), ("failure", ← (← res.error).present?)]

end ParserAlgebra.Script
