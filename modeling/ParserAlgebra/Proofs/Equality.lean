import Mathlib.Data.List.Forall2
import ParserAlgebra.Proofs.Repetition

/-!
# What it means that two values are equal

Equality asks one of the values what it compares of itself with the other, so what is compared is
told by their two kinds, from either side (`Comparison.of_suits`). Of values that are well formed
(`Value.Formed`) this leaves few cases: they are one object, one number, one text, tuples of equal
items, or of one kind with equal attributes (`Value.alike_of_compared`).
-/

namespace ParserAlgebra

variable {ω : Type} [HostObject ω]

/-! ## What is compared -/

/-- The values of the kind hold no plain data and are no codes. -/
def Kind.Bare (k : Kind) : Prop :=
  ∀ t ∈ [Kind.int, .str, .list, .tuple, .span, .code], k.isA t = false

/-- The exceptions hold nothing beside themselves. -/
theorem Kind.isA_eq_false_of_isException {k t : Kind} (hk : k.isException = true)
    (hfit : (Kind.storagesOf [k]).length ≤ 1) (ht : t ∈ Kind.storages) (hne : t ≠ .baseException) :
    k.isA t = false := by
  have hmem (u : Kind) (hu : u ∈ Kind.storages) (hku : k.isA u = true) :
      u ∈ Kind.storagesOf [k] := by
    simpa [Kind.storagesOf, hku] using hu
  have hexc : Kind.baseException ∈ Kind.storagesOf [k] := hmem _ (by decide) hk
  rcases hkt : k.isA t
  · rfl
  · have htwo := hmem t ht hkt
    match hs : Kind.storagesOf [k], hfit with
    | [], _ => simp [hs] at hexc
    | [u], _ =>
      rw [hs, List.mem_singleton] at hexc htwo
      exact absurd (htwo.trans hexc.symm) hne

/-- So they are bare unless they are codes. -/
theorem Kind.bare_of_isException {k : Kind} (hk : k.isException = true)
    (hfit : (Kind.storagesOf [k]).length ≤ 1) (hcode : k.isA .code = false) : k.Bare := by
  intro t ht
  by_cases hc : t = .code
  · rw [hc, hcode]
  · have hst : ∀ u ∈ [Kind.int, .str, .list, .tuple, .span, .code], u ≠ .code →
        u ∈ Kind.storages ∧ u ≠ .baseException := by decide
    obtain ⟨hin, hne⟩ := hst t ht hc
    exact isA_eq_false_of_isException hk hfit hin hne

namespace Comparison

/-- What may be compared of a value of kind `k` and one of kind `l`; the truth value tells whether
it is the first that is asked. -/
inductive Suits (k l : Kind) : Comparison → Bool → Prop
  | number (b : Bool) (hk : k.isA .int = true) (hl : l.isA .int = true) : Suits k l .number b
  | text (b : Bool) (hk : k.isA .str = true) (hl : l.isA .str = true) : Suits k l .text b
  | list (b : Bool) (hk : k.isA .list = true) (hl : l.isA .list = true) : Suits k l .list b
  | tuple (b : Bool) (hk : k.isA .tuple = true) (hl : l.isA .tuple = true) : Suits k l .tuple b
  | spans (b : Bool) (hk : k.isA .span = true) (hl : l.isA .span = true) : Suits k l .spans b
  | piece (hk : k.isA .span = true) (hl : l.isA .str = true) : Suits k l .piece true
  | text_piece (hk : k.isA .str = true) (hl : l.isA .span = true) : Suits k l .piece false
  | success (b : Bool) (hkl : l = k) (hk : Measure.ofKind? k = some .success) : Suits k l .success b
  | failure (b : Bool) (hkl : l = k) (hk : Measure.ofKind? k = some .failure) : Suits k l .failure b
  | arguments (b : Bool) (hkl : l = k) (hk : Measure.ofKind? k = some .arguments) :
      Suits k l .arguments b
  | cause (b : Bool) (hkl : l = k) (hk : Measure.ofKind? k = some .cause) : Suits k l .cause b
  | code (b : Bool) (h : k.isA .code = true ∨ l.isA .code = true) : Suits k l .code b
  | never (b : Bool) (h : k.isA .code = true ∨ l.isA .code = true) : Suits k l .never b
  | identity (b : Bool) : Suits k l .identity b

theorem Suits.symm {k l : Kind} {c : Comparison} {b : Bool} (h : Suits k l c b) :
    Suits l k c (!b) := by
  cases h with
  | number b hk hl => exact .number _ hl hk
  | text b hk hl => exact .text _ hl hk
  | list b hk hl => exact .list _ hl hk
  | tuple b hk hl => exact .tuple _ hl hk
  | spans b hk hl => exact .spans _ hl hk
  | piece hk hl => exact .text_piece hl hk
  | text_piece hk hl => exact .piece hl hk
  | success b hkl hk => exact hkl ▸ .success _ rfl (hkl ▸ hk)
  | failure b hkl hk => exact hkl ▸ .failure _ rfl (hkl ▸ hk)
  | arguments b hkl hk => exact hkl ▸ .arguments _ rfl (hkl ▸ hk)
  | cause b hkl hk => exact hkl ▸ .cause _ rfl (hkl ▸ hk)
  | code b h => exact .code _ h.symm
  | never b h => exact .never _ h.symm
  | identity b => exact .identity _

theorem known?_suits {k l : Kind} {c : Comparison} (h : known? k l = some c) :
    Suits k l c true := by
  unfold known? at h
  rcases hk : Measure.ofKind? k with _ | m
  · rw [hk] at h
    cases h
  · have isA (t : Kind) (ht : (t, m) ∈ Measure.table) : k.isA t = true := Measure.isA_of_mem hk ht
    cases m <;> simp only [hk, Option.ite_none_right_eq_some, Option.some.injEq,
      decide_eq_true_eq] at h
    case number => exact h.2 ▸ .number _ (isA _ (by decide)) h.1
    case text => exact h.2 ▸ .text _ (isA _ (by decide)) h.1
    case list => exact h.2 ▸ .list _ (isA _ (by decide)) h.1
    case tuple => exact h.2 ▸ .tuple _ (isA _ (by decide)) h.1
    case span =>
      split at h
      · next hl => exact Option.some.inj h ▸ .spans _ (isA _ (by decide)) hl
      · simp only [Option.ite_none_right_eq_some, Option.some.injEq] at h
        exact h.2 ▸ .piece (isA _ (by decide)) h.1
    case success => exact h.2 ▸ .success _ h.1 hk
    case failure => exact h.2 ▸ .failure _ h.1 hk
    case code =>
      subst h
      split
      · exact .code _ (.inl (isA _ (by decide)))
      · exact .never _ (.inl (isA _ (by decide)))
    case arguments => exact h.2 ▸ .arguments _ h.1 hk
    case cause => exact h.2 ▸ .cause _ h.1 hk

theorem between_suits (k l : Kind) : Suits k l (between k l).1 (between k l).2 := by
  have hleft {r : Comparison × Bool} (h : (known? k l).map (·, true) = some r) :
      Suits k l r.1 r.2 := by
    obtain ⟨c, hc, rfl⟩ := Option.map_eq_some_iff.1 h
    exact known?_suits hc
  have hright {r : Comparison × Bool} (h : (known? l k).map (·, false) = some r) :
      Suits k l r.1 r.2 := by
    obtain ⟨c, hc, rfl⟩ := Option.map_eq_some_iff.1 h
    exact (known?_suits hc).symm
  have heither {x y : Option (Comparison × Bool)} {r} (h : (x <|> y) = some r) :
      x = some r ∨ y = some r := by
    rcases x with _ | a
    · exact .inr h
    · exact .inl h
  unfold between
  dsimp only
  split
  all_goals
    rcases hr : HOrElse.hOrElse _ _ with _ | r
    · exact .identity _
    · rcases heither hr with h | h
      all_goals first | exact hleft h | exact hright h

theorem of_suits (first : Bool) (k l : Kind) :
    Suits k l (Comparison.of first k l).1 (Comparison.of first k l).2 := by
  unfold Comparison.of
  split
  · exact between_suits k l
  · exact (between_suits l k).symm

end Comparison

/-! ## Well-formed values -/

/-- The attributes that two values are compared by. What a union wraps is not among them: it may be
anything. -/
def Measure.parts : Option Measure → List Attribute
  | some .success => [.value]
  | some .failure => [.error, .pos]
  | some .arguments => [.arguments]
  | _ => []

namespace Value

/-- What a value is compared by: the items of a tuple, or attributes. -/
def Part (u v : Value ω) : Prop :=
  (∃ items, v = tuple items ∧ u ∈ items) ∨
    ∃ a ∈ Measure.parts (Measure.ofKind? v.kindOf), v.get a = .ok u

/-- A mark is the mark of one object, and `objectAt` says of which. An object may also have none. -/
def Marked (objectAt : Nat → Value ω) (v : Value ω) : Prop := v.mark ≠ 0 → objectAt v.mark = v

/-- A value is plain data, or an object that is bare. -/
def Formed (objectAt : Nat → Value ω) : Value ω → Prop
  | list _ | host _ => False
  | object k held attributes mark chained =>
    k.Bare ∧ (object k held attributes mark chained).Marked objectAt
  | _ => True

/-- A value and all that it is compared by are well formed. -/
inductive Regular (objectAt : Nat → Value ω) : Value ω → Prop
  | mk {v : Value ω} (hform : v.Formed objectAt) (hparts : ∀ u, u.Part v → Regular objectAt u) :
      Regular objectAt v

section Regular

variable {objectAt : Nat → Value ω} {u v : Value ω}

theorem Regular.formed (h : v.Regular objectAt) : v.Formed objectAt := by
  obtain ⟨hform, -⟩ := h
  exact hform

theorem Regular.part (h : v.Regular objectAt) (hu : u.Part v) : u.Regular objectAt := by
  obtain ⟨-, hparts⟩ := h
  exact hparts u hu

theorem part_of_mem {m : Measure} {a : Attribute} (hm : Measure.ofKind? v.kindOf = some m)
    (ha : a ∈ Measure.parts (some m)) (hu : v.get a = .ok u) : u.Part v := .inr ⟨a, hm ▸ ha, hu⟩

namespace Regular

theorem str (s : String) : (str s : Value ω).Regular objectAt := by
  refine ⟨trivial, ?_⟩
  rintro u (⟨items, h, -⟩ | ⟨a, ha, -⟩)
  · cases h
  · have hm : Measure.ofKind? .str = some .text := by decide
    simp [kindOf, hm, Measure.parts] at ha

theorem span (s : Span) : (span s : Value ω).Regular objectAt := by
  refine ⟨trivial, ?_⟩
  rintro u (⟨items, h, -⟩ | ⟨a, ha, -⟩)
  · cases h
  · have hm : Measure.ofKind? .span = some .span := by decide
    simp [kindOf, hm, Measure.parts] at ha

theorem tuple {items : List (Value ω)} (h : ∀ u ∈ items, u.Regular objectAt) :
    (tuple items).Regular objectAt := by
  refine ⟨trivial, ?_⟩
  rintro u (⟨items, h', hu⟩ | ⟨a, ha, -⟩)
  · cases h'
    exact h u hu
  · have hm : Measure.ofKind? .tuple = some .tuple := by decide
    simp [kindOf, hm, Measure.parts] at ha

/-- An object that is compared by one attribute. -/
theorem object {k : Kind} {held : Value ω} {attributes : Attributes ω} {mark : Nat}
    {chained : Option Kind} {a : Attribute} (hk : k.Bare)
    (hmark : (object k held attributes mark chained).Marked objectAt)
    (hparts : Measure.parts (Measure.ofKind? k) = [a]) (hv : attributes.read k a = .ok v)
    (h : v.Regular objectAt) : (object k held attributes mark chained).Regular objectAt := by
  refine ⟨⟨hk, hmark⟩, ?_⟩
  rintro u (⟨items, h', -⟩ | ⟨b, hb, hu⟩)
  · cases h'
  · change b ∈ Measure.parts (Measure.ofKind? k) at hb
    obtain rfl : b = a := by simpa [hparts] using hb
    obtain rfl : v = u := Except.ok.inj (hv.symm.trans hu)
    exact h

end Regular

end Regular

/-- The number that a value is, given as a number or as a truth value. -/
def Counts (v : Value ω) (n : Int) : Prop := v = int n ∨ ∃ b, v = bool b ∧ n = if b then 1 else 0

/-- The text that a value is, given as a text or as a span. -/
def Reads (v : Value ω) (s : String) : Prop := v = str s ∨ ∃ t, v = span t ∧ t.text = s

/-- Compares two values, of which the first may stand on either side. -/
def compared (first : Bool) (v w : Value ω) : Except Fault Bool :=
  equalBy (Comparison.of first v.kindOf w.kindOf).2 (Comparison.of first v.kindOf w.kindOf).1 v w

theorem equal_eq_compared (v w : Value ω) : v.equal w = v.compared true w := rfl

/-- Parts of equal values: they are one object, or compared and found equal. -/
def Agrees (v w : Value ω) : Prop :=
  v.identical w = true ∨ ∃ first, v.compared first w = .ok true

/-- What two equal values have in common. -/
inductive Alike : Value ω → Value ω → Prop
  | same (v : Value ω) : Alike v v
  | number {v w : Value ω} {n : Int} (hv : v.Counts n) (hw : w.Counts n) : Alike v w
  | text {v w : Value ω} {s : String} (hv : v.Reads s) (hw : w.Reads s) : Alike v w
  | tuple {vs ws : List (Value ω)} (h : List.Forall₂ Agrees vs ws) : Alike (tuple vs) (tuple ws)
  | success {v w a b : Value ω} (hm : Measure.ofKind? v.kindOf = some .success)
      (hk : w.kindOf = v.kindOf) (ha : v.get .value = .ok a) (hb : w.get .value = .ok b)
      (hab : a.Agrees b) : Alike v w
  | failure {v w e f p q : Value ω} (hm : Measure.ofKind? v.kindOf = some .failure)
      (hk : w.kindOf = v.kindOf) (he : v.get .error = .ok e) (hf : w.get .error = .ok f)
      (hp : v.get .pos = .ok p) (hq : w.get .pos = .ok q) (hef : e.Agrees f) (hpq : p.Agrees q) :
      Alike v w
  | arguments {v w a b : Value ω} (hm : Measure.ofKind? v.kindOf = some .arguments)
      (hk : w.kindOf = v.kindOf) (ha : v.get .arguments = .ok a) (hb : w.get .arguments = .ok b)
      (hab : a.Agrees b) : Alike v w
  | union {v w a b : Value ω} (hm : Measure.ofKind? v.kindOf = some .cause)
      (hk : w.kindOf = v.kindOf) (ha : v.get .cause = .ok a) (hb : w.get .cause = .ok b)
      (hab : a.Agrees b) : Alike v w

variable {objectAt : Nat → Value ω} {v w : Value ω}

omit [HostObject ω] in
/-- Two objects that have one mark are one. -/
theorem Marked.eq {k k' : Kind} {held held' : Value ω} {attributes attributes' : Attributes ω}
    {mark mark' : Nat} {chained chained' : Option Kind}
    (hv : (object k held attributes mark chained).Marked objectAt)
    (hw : (object k' held' attributes' mark' chained').Marked objectAt)
    (h : (mark == mark' && mark != 0) = true) :
    object k held attributes mark chained = object k' held' attributes' mark' chained' := by
  obtain ⟨hmark, hne⟩ := Bool.and_eq_true_iff.1 h
  obtain rfl := eq_of_beq hmark
  have hne : mark ≠ 0 := bne_iff_ne.1 hne
  rw [← hv hne, ← hw hne]
  rfl

/-! ## Well-formed values of a given kind -/

/-- What plain data a value of kind `k` is. -/
structure Plain (k : Kind) (v : Value ω) : Prop where
  int : k.isA .int = true → ∃ n, v.Counts n ∧ v.toInt? = some n
  str : k.isA .str = true → ∃ s, v = str s
  list : k.isA .list = false
  tuple : k.isA .tuple = true → ∃ items, v = tuple items
  span : k.isA .span = true → ∃ s, v = span s
  code : k.isA .code = false

omit [HostObject ω] in
/-- A bare kind tells of no plain data. -/
theorem plain_of_bare {k : Kind} (h : k.Bare) : Plain k v where
  int hk := absurd hk (by rw [h .int (by decide)]; decide)
  str hk := absurd hk (by rw [h .str (by decide)]; decide)
  list := h .list (by decide)
  tuple hk := absurd hk (by rw [h .tuple (by decide)]; decide)
  span hk := absurd hk (by rw [h .span (by decide)]; decide)
  code := h .code (by decide)

theorem Formed.plain (h : v.Formed objectAt) : Plain v.kindOf v := by
  have hbare : ∀ k ∈ [Kind.noneType, .takeFailure, .type, .ok, .err], k.Bare := by
    unfold Kind.Bare
    decide
  cases v with
  | bool b =>
    change Plain .bool (bool b)
    exact ⟨fun _ => ⟨_, .inr ⟨b, rfl, rfl⟩, rfl⟩, fun hk => absurd hk (by decide), by decide,
      fun hk => absurd hk (by decide), fun hk => absurd hk (by decide), by decide⟩
  | int n =>
    change Plain .int (int n)
    exact ⟨fun _ => ⟨n, .inl rfl, rfl⟩, fun hk => absurd hk (by decide), by decide,
      fun hk => absurd hk (by decide), fun hk => absurd hk (by decide), by decide⟩
  | str s =>
    change Plain .str (str s)
    exact ⟨fun hk => absurd hk (by decide), fun _ => ⟨s, rfl⟩, by decide,
      fun hk => absurd hk (by decide), fun hk => absurd hk (by decide), by decide⟩
  | tuple items =>
    change Plain .tuple (tuple items)
    exact ⟨fun hk => absurd hk (by decide), fun hk => absurd hk (by decide), by decide,
      fun _ => ⟨items, rfl⟩, fun hk => absurd hk (by decide), by decide⟩
  | span s =>
    change Plain .span (span s)
    exact ⟨fun hk => absurd hk (by decide), fun hk => absurd hk (by decide), by decide,
      fun hk => absurd hk (by decide), fun _ => ⟨s, rfl⟩, by decide⟩
  | list | host => exact h.elim
  | object => exact plain_of_bare h.1
  | none => exact plain_of_bare (hbare .noneType (by decide))
  | mismatch => exact plain_of_bare (hbare .takeFailure (by decide))
  | kind => exact plain_of_bare (hbare .type (by decide))
  | ok => exact plain_of_bare (hbare .ok (by decide))
  | err => exact plain_of_bare (hbare .err (by decide))

omit [HostObject ω] in
/-- Well-formed values that are one object are one value. -/
theorem Formed.eq_of_identical (hv : v.Formed objectAt) (hw : w.Formed objectAt)
    (h : v.identical w = true) : v = w := by
  cases v <;> cases w <;> simp only [identical, Bool.false_eq_true] at h
  case none.none => rfl
  case mismatch.mismatch => rw [eq_of_beq h]
  case kind.kind => rw [of_decide_eq_true h]
  case object.object =>
    exact hv.2.eq hw.2 h

/-! ## Attributes -/

omit [HostObject ω] in
theorem exists_of_bind {α β : Type} {x : Except Fault α} {f : α → Except Fault β} {b : β}
    (h : (x >>= f) = .ok b) : ∃ a, x = .ok a ∧ f a = .ok b := by
  rcases x with fault | a
  · cases h
  · exact ⟨a, rfl, h⟩

theorem equalAt_eq (first : Bool) (a : Attribute) (same : Bool) (unset : Except Fault Bool)
    (w : Value ω) (attributes : Attributes ω) : equalAt first a same unset attributes w =
      match attributes.get? a with
      | some u => if same && u.identical w then .ok true else u.compared first w
      | Option.none => unset := by
  cases attributes with
  | nil => rw [equalAt, Attributes.get?_nil]
  | cons b u rest =>
    rw [equalAt, Attributes.get?_cons]
    split
    · rfl
    · exact equalAt_eq first a same unset w rest

/-- Comparing an attribute that both objects have. -/
theorem agrees_of_equalAt {first same : Bool} {a : Attribute} {k : Kind} {attributes : Attributes ω}
    (h : equalAt first a same ((attributes.unset k a).map fun u => u.identical w) attributes w =
      .ok true) : ∃ u, attributes.read k a = .ok u ∧ u.Agrees w := by
  rw [equalAt_eq] at h
  unfold Attributes.read
  rcases hg : attributes.get? a with _ | u <;> simp only [hg] at h
  · rcases hu : attributes.unset k a with f | u <;> rw [hu] at h
    · cases h
    · exact ⟨u, rfl, .inl (Except.ok.inj h)⟩
  · refine ⟨u, rfl, ?_⟩
    split at h
    · next hs => exact .inl (Bool.and_eq_true_iff.1 hs).2
    · exact .inr ⟨first, h⟩

/-! ## Equal values -/

theorem forall₂_of_equalAll {first : Bool} : ∀ {vs ws : List (Value ω)},
    equalAll first vs ws = .ok true → List.Forall₂ Agrees vs ws
  | [], [], _ => .nil
  | [], _ :: _, h => by cases h
  | _ :: _, [], h => by cases h
  | v :: vs, w :: ws, h => by
    rw [equalAll] at h
    dsimp only at h
    split at h
    · next hvw => exact .cons (.inl hvw) (forall₂_of_equalAll h)
    · obtain ⟨same, hvw, h⟩ := exists_of_bind h
      cases same
      · cases h
      · exact .cons (.inr ⟨first, hvw⟩) (forall₂_of_equalAll h)

theorem text_of_sharesText {s : Span} {t : String}
    (h : (span s : Value ω).sharesText (str t) = .ok true) : t = s.text := by
  have hb : (Comparison.between .str .str).1 = .text := by decide
  simpa [sharesText, get, chars?, plain, isText, kindOf, hb, bind, Except.bind, pure,
    Except.pure] using h

section Parts

variable {asked : Bool}

theorem agrees_of_if {a b : Value ω} {first : Bool}
    (h : (if a.identical b = true then .ok true else a.compared first b) = .ok true) :
    a.Agrees b := by
  split at h
  · next hab => exact .inl hab
  · exact .inr ⟨first, h⟩

/-- Values that are equal by one attribute both have it, and agree in it. -/
theorem exists_of_equalBy {c : Comparison} {a : Attribute}
    (hc : c = .success ∧ a = .value ∨ c = .arguments ∧ a = .arguments ∨ c = .cause ∧ a = .cause)
    (h : equalBy asked c v w = .ok true) :
    ∃ x y, v.get a = .ok x ∧ w.get a = .ok y ∧ x.Agrees y := by
  rcases hc with ⟨rfl, rfl⟩ | ⟨rfl, rfl⟩ | ⟨rfl, rfl⟩
  all_goals
    cases v with
    | ok x =>
      first
      | rw [equalBy, if_pos rfl] at h
        obtain ⟨y, hy, h⟩ := exists_of_bind h
        exact ⟨x, y, rfl, hy, agrees_of_if h⟩
      | simp [equalBy, equalFlat] at h
    | object k held attributes mark chained =>
      simp only [equalBy] at h
      obtain ⟨y, hy, h⟩ := exists_of_bind h
      obtain ⟨x, hx, hxy⟩ := agrees_of_equalAt h
      exact ⟨x, y, hx, hy, hxy⟩
    | _ => simp [equalBy, equalFlat] at h

theorem agrees_of_second {p q : Value ω} {first same : Bool}
    (h : (if (!same) = true then .ok false
      else if p.identical q = true then .ok true else p.compared first q) = .ok true) :
    same = true ∧ p.Agrees q := by
  cases same
  · cases h
  · exact ⟨rfl, agrees_of_if h⟩

theorem exists_of_equalBy_failure (h : equalBy asked .failure v w = .ok true) :
    ∃ e f p q, v.get .error = .ok e ∧ w.get .error = .ok f ∧ v.get .pos = .ok p ∧
      w.get .pos = .ok q ∧ e.Agrees f ∧ p.Agrees q := by
  cases v with
  | err e p =>
    rw [equalBy, if_pos rfl] at h
    obtain ⟨f, hf, h⟩ := exists_of_bind h
    obtain ⟨q, hq, h⟩ := exists_of_bind h
    dsimp only at h
    split at h
    · next hef =>
      obtain ⟨same, -, h⟩ := exists_of_bind h
      exact ⟨e, f, p, q, rfl, hf, rfl, hq, .inl hef, (agrees_of_second h).2⟩
    · obtain ⟨same, hef, h⟩ := exists_of_bind h
      obtain ⟨rfl, hpq⟩ := agrees_of_second h
      exact ⟨e, f, p, q, rfl, hf, rfl, hq, .inr ⟨_, hef⟩, hpq⟩
  | object k held attributes mark chained =>
    simp only [equalBy] at h
    obtain ⟨-, -, h⟩ := exists_of_bind h
    obtain ⟨f, hf, h⟩ := exists_of_bind h
    obtain ⟨same, hsame, h⟩ := exists_of_bind h
    obtain ⟨f', hf', hsame⟩ := exists_of_bind hsame
    obtain rfl : f = f' := Except.ok.inj (hf.symm.trans hf')
    cases same
    · cases h
    · obtain ⟨q, hq, h⟩ := exists_of_bind h
      obtain ⟨e, he, hef⟩ := agrees_of_equalAt hsame
      obtain ⟨p, hp, hpq⟩ := agrees_of_equalAt h
      exact ⟨e, f, p, q, he, hf, hp, hq, hef, hpq⟩
  | _ => simp [equalBy, equalFlat] at h

theorem equalBy_identity (v w : Value ω) : equalBy asked .identity v w = .ok (v.identical w) := by
  cases v <;> simp [equalBy, equalFlat]

end Parts

/-- Two well-formed values that are equal are alike. -/
theorem alike_of_compared {first : Bool} (hv : v.Formed objectAt) (hw : w.Formed objectAt)
    (h : v.compared first w = .ok true) : Alike v w := by
  unfold compared at h
  obtain ⟨c, asked, hc⟩ : ∃ c asked, Comparison.of first v.kindOf w.kindOf = (c, asked) :=
    ⟨_, _, rfl⟩
  have hsuits := Comparison.of_suits first v.kindOf w.kindOf
  rw [hc] at h hsuits
  cases hsuits with
  | number _ hk hl =>
    obtain ⟨n, hvn, hv'⟩ := hv.plain.int hk
    obtain ⟨m, hwm, hw'⟩ := hw.plain.int hl
    rw [Mark.equalBy_number, hv', hw'] at h
    obtain rfl : n = m := by simpa using h
    exact .number hvn hwm
  | text _ hk hl =>
    obtain ⟨s, rfl⟩ := hv.plain.str hk
    obtain ⟨t, rfl⟩ := hw.plain.str hl
    obtain rfl : s = t := by simpa [equalBy, equalFlat, chars?, plain] using h
    exact .same _
  | list _ hk => exact absurd hk (by simp [hv.plain.list])
  | tuple _ hk hl =>
    obtain ⟨vs, rfl⟩ := hv.plain.tuple hk
    obtain ⟨ws, rfl⟩ := hw.plain.tuple hl
    rw [equalBy, if_pos rfl] at h
    exact .tuple (forall₂_of_equalAll h)
  | spans _ hk hl =>
    obtain ⟨s, rfl⟩ := hv.plain.span hk
    obtain ⟨t, rfl⟩ := hw.plain.span hl
    have hst : t.text = s.text := by
      simpa [equalBy, get, chars?, plain, bind, Except.bind, pure, Except.pure] using h
    exact .text (.inr ⟨s, rfl, rfl⟩) (.inr ⟨t, rfl, hst⟩)
  | piece hk hl =>
    obtain ⟨s, rfl⟩ := hv.plain.span hk
    obtain ⟨t, rfl⟩ := hw.plain.str hl
    rw [equalBy, if_neg (by decide)] at h
    exact .text (.inr ⟨s, rfl, rfl⟩) (.inl (congrArg str (text_of_sharesText h)))
  | text_piece hk hl =>
    obtain ⟨s, rfl⟩ := hv.plain.str hk
    obtain ⟨t, rfl⟩ := hw.plain.span hl
    simp only [equalBy] at h
    exact .text (.inl (congrArg str (text_of_sharesText h))) (.inr ⟨t, rfl, rfl⟩)
  | success _ hkl hm =>
    obtain ⟨a, b, ha, hb, hab⟩ := exists_of_equalBy (.inl ⟨rfl, rfl⟩) h
    exact .success hm hkl ha hb hab
  | failure _ hkl hm =>
    obtain ⟨e, f, p, q, he, hf, hp, hq, hef, hpq⟩ := exists_of_equalBy_failure h
    exact .failure hm hkl he hf hp hq hef hpq
  | arguments _ hkl hm =>
    obtain ⟨a, b, ha, hb, hab⟩ := exists_of_equalBy (.inr (.inl ⟨rfl, rfl⟩)) h
    exact .arguments hm hkl ha hb hab
  | cause _ hkl hm =>
    obtain ⟨a, b, ha, hb, hab⟩ := exists_of_equalBy (.inr (.inr ⟨rfl, rfl⟩)) h
    exact .union hm hkl ha hb hab
  | code _ hcode | never _ hcode =>
    rcases hcode with hk | hl
    · exact absurd hk (by simp [hv.plain.code])
    · exact absurd hl (by simp [hw.plain.code])
  | identity =>
    rw [equalBy_identity] at h
    rw [hv.eq_of_identical hw (Except.ok.inj h)]
    exact .same w

end Value

end ParserAlgebra
