import ParserAlgebra.Value.Construct
import ParserAlgebra.Value.Equality

/-!
# Conversions between kinds of errors

A registry holds the declared conversions: for each source kind a table from target kinds to the
way an error is converted. Conversions are found through the lineage of the source and are never
chained (`Registry.find?`). No table is ever left empty: the last conversion out of a kind takes its
table with it (`Registry.erase`).

Seen through `Registry.get?` the tables are one flat map from pairs of kinds: declaring a conversion
and taking one back change a single pair (`Registry.get?_insert`, `Registry.get?_erase`).

A conversion that is declared into a plain value by mistake is kept beside the tables, although its
declaration fails (`Stray`). If the value cannot even be looked up, only the source is kept
(`Registry.begun`).
-/

namespace ParserAlgebra

/-- How an error is converted into the target kind. -/
inductive Conversion (ω : Type) where
  | wrapping
  | function (f : ω)

/-- Tables that keep the order in which keys were first put in. -/
abbrev Table (α : Type) := List (Kind × α)

namespace Table

variable {α : Type}

def get? (k : Kind) (t : Table α) : Option α := t.lookup k

/-- Gives `k` the value `v`; a key that is there keeps its place. -/
def put (k : Kind) (v : α) : Table α → Table α
  | [] => [(k, v)]
  | (l, w) :: t => if l = k then (k, v) :: t else (l, w) :: put k v t

def erase (k : Kind) (t : Table α) : Table α := t.filter fun e => e.1 ≠ k

@[simp] theorem get?_nil (k : Kind) : get? k ([] : Table α) = none := rfl

theorem get?_cons (k l : Kind) (v : α) (t : Table α) :
    get? k ((l, v) :: t) = if k = l then some v else get? k t := by
  by_cases h : k = l
  · simp [get?, h]
  · have hb : (k == l) = false := by simpa using h
    simp [get?, List.lookup_cons, h, hb]

theorem get?_put (k l : Kind) (v : α) (t : Table α) :
    get? k (put l v t) = if k = l then some v else get? k t := by
  induction t with
  | nil => simp [put, get?_cons]
  | cons e t ih =>
    obtain ⟨m, w⟩ := e
    by_cases hm : m = l <;> by_cases hk : k = m <;> simp_all [put, get?_cons]

theorem get?_erase (k l : Kind) (t : Table α) :
    get? k (erase l t) = if k = l then none else get? k t := by
  induction t with
  | nil => simp [erase]
  | cons e t ih =>
    obtain ⟨m, w⟩ := e
    by_cases hm : m = l <;> by_cases hk : k = m <;> simp_all [erase, get?_cons]

end Table

/-- A conversion that was declared into a plain value. -/
structure Stray (ω : Type) where
  source : Kind
  target : Value ω
  conversion : Conversion ω

/-- Whether a stray leads from a kind to a value: its target has the hash of the value and is equal
to it. -/
def Stray.leads {ω : Type} [HostObject ω] (e : Stray ω) (source : Kind) (target : Value ω) :
    Except Fault Bool :=
  if e.source = source ∧ e.target.hash?.toOption = target.hash?.toOption then
    e.target.equal target
  else .ok false

structure Registry (ω : Type) where
  tables : Table (Table (Conversion ω)) := []
  /-- The newest first. -/
  strays : List (Stray ω) := []
  /-- The kinds out of which a declaration was begun that could not be entered. -/
  begun : List Kind := []

namespace Registry

variable {ω : Type}

def empty : Registry ω := {}

def get? (r : Registry ω) (source target : Kind) : Option (Conversion ω) :=
  (Table.get? source r.tables).bind (Table.get? target)

/-- Declares a conversion, in place of an earlier one of the same pair. -/
def insert (r : Registry ω) (source target : Kind) (c : Conversion ω) : Registry ω :=
  { r with tables :=
      Table.put source (Table.put target c ((Table.get? source r.tables).getD [])) r.tables }

def erase (r : Registry ω) (source target : Kind) : Registry ω :=
  match Table.get? source r.tables with
  | none => r
  | some table =>
    match Table.erase target table with
    | [] => { r with tables := Table.erase source r.tables }
    | e :: rest => { r with tables := Table.put source (e :: rest) r.tables }

/-- A declaration changes its own pair alone. -/
theorem get?_insert (r : Registry ω) (source target s t : Kind) (c : Conversion ω) :
    (r.insert source target c).get? s t =
      if s = source ∧ t = target then some c else r.get? s t := by
  unfold insert get?
  rw [Table.get?_put]
  by_cases hs : s = source
  · subst hs
    cases Table.get? s r.tables <;> simp [Table.get?_put]
  · simp [hs]

/-- Taking a conversion back changes its own pair alone. -/
theorem get?_erase (r : Registry ω) (source target s t : Kind) :
    (r.erase source target).get? s t =
      if s = source ∧ t = target then none else r.get? s t := by
  unfold erase get?
  cases hr : Table.get? source r.tables with
  | none => by_cases hs : s = source <;> simp_all
  | some table =>
    have he : ∀ k, Table.get? k (Table.erase target table) =
        if k = target then none else Table.get? k table := fun k => Table.get?_erase k target table
    dsimp only
    cases hf : Table.erase target table with
    | nil =>
      by_cases hs : s = source
      · subst hs
        have := he t
        by_cases ht : t = target <;> simp_all [Table.get?_erase]
      · simp [Table.get?_erase, hs]
    | cons e rest =>
      rw [hf] at he
      by_cases hs : s = source
      · subst hs
        by_cases ht : t = target <;> simp [Table.get?_put, hr, he, ht]
      · simp [Table.get?_put, hs]

/-- The pairs of kinds with a conversion, in the order of the tables. -/
def edges (r : Registry ω) : List (Kind × Kind) :=
  r.tables.flatMap fun (source, table) => table.map fun e => (source, e.1)

/-- The conversion into `target` of the first kind in the lineage of `source` that has one. -/
def find? (r : Registry ω) (source target : Kind) : Option (Conversion ω) :=
  source.lineage.findSome? fun k => r.get? k target

/-! ## Strays -/

def hasEntries (r : Registry ω) (source : Kind) : Bool :=
  (Table.get? source r.tables).isSome || r.strays.any (·.source = source)

/-- Whether a declaration out of a kind was at least begun. -/
def hasSource (r : Registry ω) (source : Kind) : Bool :=
  r.hasEntries source || r.begun.contains source

/-- Notes that a declaration out of a kind was begun. -/
def addBegun (r : Registry ω) (source : Kind) : Registry ω :=
  { r with begun := source :: r.begun }

/-- Forgets what was begun out of a kind when nothing is declared out of it. -/
def settle (r : Registry ω) (source : Kind) : Registry ω :=
  if r.hasEntries source then r else { r with begun := r.begun.filter (· ≠ source) }

@[simp] theorem tables_settle (r : Registry ω) (source : Kind) :
    (r.settle source).tables = r.tables := by unfold settle; split <;> rfl

@[simp] theorem get?_settle (r : Registry ω) (source s t : Kind) :
    (r.settle source).get? s t = r.get? s t := by simp [get?]

def insertStray (r : Registry ω) (e : Stray ω) : Registry ω := { r with strays := e :: r.strays }

variable [HostObject ω]

/-- The stray into a plain value of the first kind in the lineage of `source` that has one. A value
without a hash cannot be looked up where anything is declared. -/
def stray? (r : Registry ω) (source : Kind) (target : Value ω) :
    Except Fault (Option (Conversion ω)) :=
  source.lineage.findSomeM? fun k => do
    if r.hasSource k then
      let _ ← target.hash?
      return (← r.strays.findM? fun e => e.leads k target).map Stray.conversion
    else return none

def eraseStray (r : Registry ω) (source : Kind) (target : Value ω) :
    Except Fault (Registry ω) := do
  return { r with strays := ← r.strays.filterM fun e => return !(← e.leads source target) }

end Registry

/-- What stands where a kind of error is declared: a kind, or any other value by mistake. -/
inductive Declared (ω : Type) where
  | kind (k : Kind)
  | plain (v : Value ω)

namespace Declared

variable {ω : Type}

def undeclared : Declared ω := .kind .object

def infallible : Declared ω := .kind .infallible

def toValue : Declared ω → Value ω
  | .kind k => .kind k
  | .plain v => v

/-- The name by which a parser shows what it declares. -/
def shown? [HostObject ω] : Declared ω → Except Fault String
  | .kind k => .ok k.name
  | .plain v => v.text?

/-- Declared as Infallible or a kind that inherits from it. -/
def isInfallible : Declared ω → Bool
  | .kind k => k.isInfallible
  | .plain _ => false

def isUndeclared : Declared ω → Bool
  | .kind k => k = .object
  | .plain _ => false

def name? [HostObject ω] : Declared ω → Except Fault String
  | .kind k => .ok k.name
  | .plain v => v.name?

/-- The declared kind; anything else cannot be compared with kinds. -/
def kind? : Declared ω → Except Fault Kind
  | .kind k => .ok k
  | .plain _ => .error (.misused .heirNotAKind)

/-- What declares a kind of exception can be caught. -/
def catches (d : Declared ω) (raised : Kind) : Bool :=
  match d with
  | .kind k => k.isException && raised.isA k
  | .plain _ => false

end Declared

namespace Value

variable {ω : Type}

mutual
/-- An empty tuple or a tuple of such tuples: a choice among no kinds. -/
def isNoKinds : Value ω → Bool
  | tuple items => areNoKinds items
  | object k held _ _ _ => k.isA .tuple && isNoKinds held
  | _ => false
def areNoKinds : List (Value ω) → Bool
  | [] => true
  | v :: vs => isNoKinds v && areNoKinds vs
end

end Value

/-- Whether a kind is of the declared kind; `none` when no kinds are declared. -/
def Declared.holds? {ω : Type} (d : Declared ω) (k : Kind) : Option Bool :=
  match d with
  | .kind t => some (k.isA t)
  | .plain v => if v.isNoKinds then some false else none

namespace Registry

variable {ω : Type}

/-- Whether errors of the kind `source` may stand where `target` is declared. -/
def canConvert [HostObject ω] (r : Registry ω) (source target : Declared ω) :
    Except Fault Bool :=
  if target.isUndeclared then .ok true
  else do
    let s ← source.kind?
    match target.holds? s with
    | some true => return true
    | none => throw (.misused .inheritedNotAKind)
    | some false =>
      if s.isInfallible then return true
      match target with
      | .kind t => return (r.find? s t).isSome
      | .plain v => return (← r.stray? s v).isSome

/-- The kind of error that two parsers have together: the first one's unless it is infallible. -/
def joined (first second : Declared ω) : Declared ω :=
  if first.isInfallible then second else first

end Registry

end ParserAlgebra
