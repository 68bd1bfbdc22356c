import ParserAlgebra.Assignment
import ParserAlgebra.Proofs.Equality

/-!
# What equality can tell

What equality can tell of a value is its content (`Content`): a truth value is a number and a span is its
text, a failure is its kind and its arguments, a union its kind and what it wraps, and an object that says
nothing of its equality is itself. Two values that have contents are compared without a fault, whichever of
them is asked, and are equal if they have the same content (`Value.Means.decides`), so their equality is an
equivalence (`Value.equality_of_contents`).

The induction is on how the first value gets its content. Values of two groups (`Kind.group?`) do not know each
other and are told apart at once, so each step meets a second value of the same group only.

A union has a cause only if it was made by the kind of unions. One whose kind inherits from another exception
before it may have none, and cannot be compared with any value of its own kind.
-/

namespace ParserAlgebra

variable {ω : Type}

/-! ## Contents -/

/-- What equality can tell of a value. -/
inductive Content where
  | number (n : Int)
  | text (s : String)
  | nothing
  | mismatch (m : Mismatch)
  | kind (k : Kind)
  | list (items : List Content)
  | tuple (items : List Content)
  | success (value : Content)
  | failure (error pos : Content)
  /-- An object of the kind that is told by one attribute. -/
  | object (k : Kind) (x : Content)
  /-- An object that is equal to itself alone. -/
  | itself (mark : Nat)

/-- The measures that look at one attribute of objects of one kind. -/
def Measure.byAttribute : List (Measure × Attribute) := [(.arguments, .arguments), (.cause, .cause)]

theorem Measure.attribute_unique {m : Measure} {a b : Attribute} (ha : (m, a) ∈ byAttribute)
    (hb : (m, b) ∈ byAttribute) : a = b := by
  have hall : ∀ e ∈ byAttribute, ∀ f ∈ byAttribute, e.1 = f.1 → e.2 = f.2 := by decide
  exact hall _ ha _ hb rfl

/-- Values are compared with values of their group: those that are measured alike, and that are of the same
kind where this is asked for. -/
abbrev Group : Type := Measure × Option Kind

/-- The group of a measure; a span stands with the texts. -/
def Measure.group (k : Kind) : Measure → Group
  | .span => (.text, none)
  | .success => (.success, some k)
  | .failure => (.failure, some k)
  | .arguments => (.arguments, some k)
  | .cause => (.cause, some k)
  | m => (m, none)

def Kind.group? (k : Kind) : Option Group := (Measure.ofKind? k).map (Measure.group k)

def Content.group? : Content → Option Group
  | number _ => some (.number, none)
  | text _ => some (.text, none)
  | list _ => some (.list, none)
  | tuple _ => some (.tuple, none)
  | success _ => some (.success, some .ok)
  | failure _ _ => some (.failure, some .err)
  | object k _ => k.group?
  | nothing | mismatch _ | kind _ | itself _ => none

theorem Measure.of_span {m : Measure} {a : Attribute} (ha : (m, a) ∈ byAttribute) :
    ofKind? .span ≠ some m := by
  have hall : ∀ e ∈ byAttribute, ofKind? .span ≠ some e.1 := by decide
  exact hall _ ha

theorem Content.group?_object {k : Kind} {m : Measure} {a : Attribute}
    (hm : Measure.ofKind? k = some m) (ha : (m, a) ∈ Measure.byAttribute) (x : Content) :
    (object k x).group? = some (m, some k) := by
  simp only [Measure.byAttribute, List.mem_cons, Prod.mk.injEq, List.not_mem_nil, or_false] at ha
  rcases ha with ⟨rfl, -⟩ | ⟨rfl, -⟩ <;> simp [group?, Kind.group?, hm, Measure.group]

namespace Value

/-- The value is a span with the text `s`. A span that keeps its bounds as they were given keeps its text too. -/
inductive SpanOf : Value ω → String → Prop
  | plain (t : Span) : SpanOf (span t) t.text
  | kept {held : Value ω} {attributes : Attributes ω} {mark : Nat} {chained : Option Kind} {s : String}
      (ht : attributes.get? .text = some (str s)) : SpanOf (object .span held attributes mark chained) s

/-- A value has a content. The kind of an object that is told by an attribute has one storage, as all kinds
have that can be made; `objectAt` says which object has a mark. -/
inductive Means (objectAt : Nat → Value ω) : Value ω → Content → Prop
  | bool (b : Bool) : Means objectAt (bool b) (.number (if b then 1 else 0))
  | int (n : Int) : Means objectAt (int n) (.number n)
  | str (s : String) : Means objectAt (str s) (.text s)
  | span (t : Span) : Means objectAt (span t) (.text t.text)
  | kept {held : Value ω} {attributes : Attributes ω} {mark : Nat} {chained : Option Kind} {s : String}
      (hmark : (object .span held attributes mark chained).Marked objectAt)
      (ht : attributes.get? .text = some (str s)) :
      Means objectAt (object .span held attributes mark chained) (.text s)
  | none : Means objectAt none .nothing
  | mismatch (m : Mismatch) : Means objectAt (mismatch m) (.mismatch m)
  | kind (k : Kind) : Means objectAt (kind k) (.kind k)
  | list {vs : List (Value ω)} {xs : List Content} (hlength : vs.length = xs.length)
      (h : ∀ i hi hi', Means objectAt (vs.get ⟨i, hi⟩) (xs.get ⟨i, hi'⟩)) :
      Means objectAt (list vs) (.list xs)
  | tuple {vs : List (Value ω)} {xs : List Content} (hlength : vs.length = xs.length)
      (h : ∀ i hi hi', Means objectAt (vs.get ⟨i, hi⟩) (xs.get ⟨i, hi'⟩)) :
      Means objectAt (tuple vs) (.tuple xs)
  | success {v : Value ω} {x : Content} (h : Means objectAt v x) : Means objectAt (ok v) (.success x)
  | failure {e p : Value ω} {x y : Content} (he : Means objectAt e x) (hp : Means objectAt p y) :
      Means objectAt (err e p) (.failure x y)
  | object {k : Kind} {held a : Value ω} {attributes : Attributes ω} {mark : Nat}
      {chained : Option Kind} {m : Measure} {attr : Attribute} {x : Content}
      (hm : Measure.ofKind? k = some m) (hattr : (m, attr) ∈ Measure.byAttribute)
      (hfit : (Kind.storagesOf [k]).length ≤ 1)
      (hmark : (object k held attributes mark chained).Marked objectAt)
      (ha : attributes.get? attr = some a) (h : Means objectAt a x) :
      Means objectAt (object k held attributes mark chained) (.object k x)
  | itself {k : Kind} {held : Value ω} {attributes : Attributes ω} {mark : Nat}
      {chained : Option Kind} (hm : Measure.ofKind? k = Option.none) (hne : mark ≠ 0)
      (hmark : (object k held attributes mark chained).Marked objectAt) :
      Means objectAt (object k held attributes mark chained) (.itself mark)

variable {objectAt : Nat → Value ω} {v w : Value ω} {x y : Content} {n m : Int} {s : String}

namespace Means

/-- A value has one content. -/
theorem unique (h : v.Means objectAt x) (h' : v.Means objectAt y) : x = y := by
  induction h generalizing y with
  | bool | int | str | span | none | mismatch | kind =>
    cases h'
    rfl
  | list hlength _ ih =>
    cases h' with
    | list hlength' h' =>
      refine congrArg Content.list (List.ext_get (hlength.symm.trans hlength') fun i hi hi' => ?_)
      exact ih i (hlength ▸ hi) hi (h' i _ hi')
  | tuple hlength _ ih =>
    cases h' with
    | tuple hlength' h' =>
      refine congrArg Content.tuple (List.ext_get (hlength.symm.trans hlength') fun i hi hi' => ?_)
      exact ih i (hlength ▸ hi) hi (h' i _ hi')
  | success _ ih =>
    cases h' with
    | success h' => rw [ih h']
  | failure _ _ ihe ihp =>
    cases h' with
    | failure he hp => rw [ihe he, ihp hp]
  | kept _ ht =>
    cases h' with
    | kept _ ht' =>
      cases ht.symm.trans ht'
      rfl
    | object hm hattr => exact absurd hm (Measure.of_span hattr)
    | itself hm => exact absurd hm (by decide)
  | object hm hattr _ _ ha _ ih =>
    cases h' with
    | kept => exact absurd hm (Measure.of_span hattr)
    | object hm' hattr' _ _ ha' h' =>
      obtain rfl := Option.some.inj (hm.symm.trans hm')
      obtain rfl := Measure.attribute_unique hattr hattr'
      obtain rfl := Option.some.inj (ha.symm.trans ha')
      rw [ih h']
    | itself hm' => cases hm.symm.trans hm'
  | itself hm =>
    cases h' with
    | kept => exact absurd hm (by decide)
    | itself => rfl
    | object hm' => cases hm.symm.trans hm'

theorem tuple_of_forall₂ {vs : List (Value ω)} {xs : List Content}
    (h : List.Forall₂ (Means objectAt) vs xs) : (Value.tuple vs).Means objectAt (.tuple xs) :=
  .tuple h.length_eq (List.forall₂_iff_get.1 h).2

/-- Values that are one object are one value. -/
theorem eq_of_identical (hv : v.Means objectAt x) (hw : w.Means objectAt y)
    (h : v.identical w = true) : v = w := by
  have marked {z : Value ω} {c : Content} (hz : z.Means objectAt c) :
      ∀ k held attributes mark chained, z = .object k held attributes mark chained →
        z.Marked objectAt := by
    rintro k held attributes mark chained rfl
    cases hz <;> assumption
  cases v <;> cases w <;> simp only [identical, Bool.false_eq_true] at h
  case none.none => rfl
  case mismatch.mismatch => rw [eq_of_beq h]
  case kind.kind => rw [of_decide_eq_true h]
  case object.object =>
    exact (marked hv _ _ _ _ _ rfl).eq (marked hw _ _ _ _ _ rfl) h

end Means

end Value

/-! ## Groups -/

variable [HostObject ω] {k l : Kind} {c : Comparison} {first : Bool}

/-- The measures of plain data. -/
def Measure.plain : List (Kind × Measure) :=
  [(.int, number), (.str, text), (.list, list), (.tuple, tuple), (.span, span)]

/-- A kind that is measured as the plain data it inherits from, if it does, and is not measured as a code. -/
structure Kind.Told (k : Kind) : Prop where
  stored : ∀ e ∈ Measure.plain, k.isA e.1 = true → Measure.ofKind? k = some e.2
  uncoded : Measure.ofKind? k ≠ some .code

theorem Kind.told_of_unmeasured (h : Measure.ofKind? k = none) : k.Told where
  stored e he hk := by
    have hall : ∀ e ∈ Measure.plain, Measure.table.lookup e.1 = some e.2 := by decide
    have hnone := List.findSome?_eq_none_iff.1 h e.1 (Kind.isA_iff.1 hk)
    cases hnone.symm.trans (hall e he)
  uncoded := by simp [h]

theorem Kind.told_of_isException {m : Measure} (hk : k.isException = true)
    (hfit : (Kind.storagesOf [k]).length ≤ 1) (hm : Measure.ofKind? k = some m) (hcode : m ≠ .code) :
    k.Told where
  stored e he hk' := by
    have hall : ∀ e ∈ Measure.plain, e.1 ∈ Kind.storages ∧ e.1 ≠ .baseException := by decide
    obtain ⟨hin, hne⟩ := hall e he
    cases hk'.symm.trans (isA_eq_false_of_isException hk hfit hin hne)
  uncoded h := hcode (Option.some.inj (hm.symm.trans h))

namespace Comparison

/-- What one kind knows of another one is of its group. -/
theorem group?_of_known? (hk : Measure.ofKind? k ≠ some .code) (hl : l.Told)
    (h : known? k l = some c) : k.group? = l.group? := by
  unfold known? at h
  rcases hm : Measure.ofKind? k with _ | m
  · rw [hm] at h
    cases h
  · cases m <;> simp only [hm, Option.ite_none_right_eq_some] at h
    case number =>
      simp [Kind.group?, hm, hl.stored (.int, .number) (by decide) h.1, Measure.group]
    case text => simp [Kind.group?, hm, hl.stored (.str, .text) (by decide) h.1, Measure.group]
    case list => simp [Kind.group?, hm, hl.stored (.list, .list) (by decide) h.1, Measure.group]
    case tuple =>
      simp [Kind.group?, hm, hl.stored (.tuple, .tuple) (by decide) h.1, Measure.group]
    case span =>
      split at h
      · next hs =>
        simp [Kind.group?, hm, hl.stored (.span, .span) (by decide) hs, Measure.group]
      · simp only [Option.ite_none_right_eq_some] at h
        simp [Kind.group?, hm, hl.stored (.str, .text) (by decide) h.1, Measure.group]
    case code => exact absurd hm hk
    all_goals rw [of_decide_eq_true h.1]

theorem of_eq_identity (h : known? k l = none) (h' : known? l k = none) :
    (Comparison.of first k l).1 = .identity := by
  unfold Comparison.of between
  cases first <;> simp [h, h']

end Comparison

namespace Value

variable {objectAt : Nat → Value ω} {v w : Value ω} {x y : Content}

theorem Means.group (h : v.Means objectAt x) : v.kindOf.group? = x.group? := by
  cases h with
  | object => rfl
  | itself hm => simp [kindOf, Kind.group?, hm, Content.group?]
  | bool => exact (by decide : Kind.bool.group? = some (.number, Option.none))
  | int => exact (by decide : Kind.int.group? = some (.number, Option.none))
  | str => exact (by decide : Kind.str.group? = some (.text, Option.none))
  | span | kept => exact (by decide : Kind.span.group? = some (.text, Option.none))
  | list => exact (by decide : Kind.list.group? = some (.list, Option.none))
  | tuple => exact (by decide : Kind.tuple.group? = some (.tuple, Option.none))
  | success => exact (by decide : Kind.ok.group? = some (.success, some .ok))
  | failure => exact (by decide : Kind.err.group? = some (.failure, some .err))
  | none => exact (by decide : Kind.noneType.group? = Option.none)
  | mismatch => exact (by decide : Kind.takeFailure.group? = Option.none)
  | kind => exact (by decide : Kind.type.group? = Option.none)

theorem Means.told (h : v.Means objectAt x) : v.kindOf.Told := by
  have hplain : ∀ k ∈ [Kind.bool, .int, .str, .span, .noneType, .takeFailure, .type, .list, .tuple, .ok,
      .err], (∀ e ∈ Measure.plain, k.isA e.1 = true → Measure.ofKind? k = some e.2) ∧
        Measure.ofKind? k ≠ some .code := by decide
  have told {k : Kind} (hk : k ∈ [Kind.bool, .int, .str, .span, .noneType, .takeFailure, .type, .list,
      .tuple, .ok, .err]) : k.Told := ⟨(hplain k hk).1, (hplain k hk).2⟩
  cases h with
  | object hm hattr hfit =>
    have hall : ∀ e ∈ Measure.byAttribute, e.1 ≠ .code ∧
        ∃ t, (t, e.1) ∈ Measure.table ∧ t.isA .baseException = true := by
      simp only [Measure.byAttribute, List.forall_mem_cons]
      exact ⟨⟨by decide, .parseFailure, by decide⟩, ⟨by decide, .errorUnion, by decide⟩, by simp⟩
    obtain ⟨hcode, t, ht, hbase⟩ := hall _ hattr
    exact Kind.told_of_isException (Kind.isA_trans (Measure.isA_of_mem hm ht) hbase) hfit hm hcode
  | itself hm => exact Kind.told_of_unmeasured hm
  | _ => exact told (by simp [kindOf])

/-! ## Comparing -/

/-- The comparison of two values has an answer, which tells whether they have one content. -/
def Decides (v w : Value ω) (x y : Content) : Prop :=
  ∀ first, ∃ b, v.compared first w = .ok b ∧ (b = true ↔ x = y)

theorem compared_of_unknown (h : Comparison.known? v.kindOf w.kindOf = Option.none)
    (h' : Comparison.known? w.kindOf v.kindOf = Option.none) :
    v.compared first w = .ok (v.identical w) := by
  unfold compared
  rw [Comparison.of_eq_identity h h', equalBy_identity]

section Means

variable (hv : v.Means objectAt x) (hw : w.Means objectAt y)

include hv hw

omit [HostObject ω] in
theorem Means.content_eq (h : v.identical w = true) : x = y := by
  obtain rfl := hv.eq_of_identical hw h
  exact hv.unique hw

/-- Values of two groups do not know each other, and have two contents. -/
theorem Means.decides_of_group_ne (hne : x.group? ≠ y.group?) : Decides v w x y := by
  rw [← hv.group, ← hw.group] at hne
  have h : Comparison.known? v.kindOf w.kindOf = Option.none := by
    by_contra hc
    obtain ⟨c, hc⟩ := Option.ne_none_iff_exists'.1 hc
    exact hne (Comparison.group?_of_known? hv.told.uncoded hw.told hc)
  have h' : Comparison.known? w.kindOf v.kindOf = Option.none := by
    by_contra hc
    obtain ⟨c, hc⟩ := Option.ne_none_iff_exists'.1 hc
    exact hne (Comparison.group?_of_known? hw.told.uncoded hv.told hc).symm
  refine fun first => ⟨_, compared_of_unknown h h', hv.content_eq hw, ?_⟩
  rintro rfl
  exact absurd (hv.group.trans hw.group.symm) hne

/-- Values without a group know no other one. -/
theorem Means.decides_of_group_none (hx : x.group? = Option.none)
    (hy : y.group? = Option.none) :
    Decides v w x y := by
  have unknown {k l : Kind} (hk : k.group? = Option.none) :
      Comparison.known? k l = Option.none := by
    have hm : Measure.ofKind? k = Option.none := Option.map_eq_none_iff.1 hk
    simp [Comparison.known?, hm]
  refine fun first => ⟨_, compared_of_unknown (unknown (hv.group.trans hx))
    (unknown (hw.group.trans hy)), hv.content_eq hw, ?_⟩
  rintro rfl
  cases hv with
  | object hm => simp [Content.group?, Kind.group?, hm] at hx
  | none | mismatch | kind =>
    cases hw
    simp [identical]
  | itself _ hne =>
    cases hw
    simpa [identical] using hne
  | _ => cases hx

/-- So only the values of one group are to be compared. -/
theorem Means.decides_of_group
    (h : x.group? = y.group? → x.group? ≠ Option.none → Decides v w x y) : Decides v w x y := by
  by_cases hg : x.group? = y.group?
  · by_cases hx : x.group? = Option.none
    · exact hv.decides_of_group_none hw hx (hg.symm.trans hx)
    · exact h hg hx
  · exact hv.decides_of_group_ne hw hg

/-- Parts of two values that are compared are one object, or the comparison decides. -/
theorem Means.decides_part (h : Decides v w x y) (first : Bool) :
    ∃ b, (if v.identical w = true then .ok true else v.compared first w : Except Fault Bool) = .ok b ∧
      (b = true ↔ x = y) := by
  split
  · next hvw => exact ⟨true, rfl, by simp [hv.content_eq hw hvw]⟩
  · exact h first

end Means

section Groups

variable {n m : Int} {s t : String}

theorem decides_numbers (hv : v.Counts n) (hw : w.Counts m) : Decides v w (.number n) (.number m) := by
  have hkinds : ∀ first, ∀ k ∈ [Kind.int, .bool], ∀ l ∈ [Kind.int, .bool],
      (Comparison.of first k l).1 = .number := by decide
  have hkind {u : Value ω} {i : Int} (h : u.Counts i) :
      u.kindOf ∈ [Kind.int, .bool] ∧ u.toInt? = some i := by
    rcases h with rfl | ⟨b, rfl, rfl⟩
    · exact ⟨by simp [kindOf], rfl⟩
    · exact ⟨by simp [kindOf], rfl⟩
  obtain ⟨hkv, hnv⟩ := hkind hv
  obtain ⟨hkw, hnw⟩ := hkind hw
  intro first
  refine ⟨n == m, ?_, by simp⟩
  unfold compared
  rw [hkinds first _ hkv _ hkw, Mark.equalBy_number, hnv, hnw]
  rfl

theorem sharesText_str (hv : v.get .text = .ok (str s)) (t : String) :
    v.sharesText (str t) = .ok (t == s) := by
  have hb : (Comparison.between .str .str).1 = .text := by decide
  simp [sharesText, hv, chars?, plain, isText, kindOf, hb, bind, Except.bind, pure, Except.pure]

namespace SpanOf

theorem kindOf (h : v.SpanOf s) : v.kindOf = .span := by
  cases h <;> rfl

theorem get_text (h : v.SpanOf s) : v.get .text = .ok (str s) := by
  cases h with
  | plain => rfl
  | kept ht => rw [get, Attributes.read, ht]

theorem equalBy_piece (h : v.SpanOf s) (asked : Bool) :
    equalBy asked .piece v w = equalFlat asked .piece v w := by
  cases h <;> simp [equalBy]

theorem equalBy_spans (hv : v.SpanOf s) (hw : w.SpanOf t) (asked : Bool) :
    equalBy asked .spans v w = .ok (s == t) := by
  cases hv with
  | plain a =>
    rw [equalBy, if_pos rfl, hw.get_text]
    simp [chars?, Value.plain, bind, Except.bind, pure, Except.pure, Bool.beq_comm]
  | kept ht =>
    have htexts : ∀ first, (Comparison.of first .str .str).1 = .text := by decide
    simp only [equalBy, hw.get_text, bind, Except.bind, equalAt_eq, ht, compared, Value.kindOf]
    simp [htexts, equalFlat, chars?, Value.plain]

end SpanOf

/-- A span is compared as its text, on either side. -/
theorem decides_texts (hv : v = str s ∨ v.SpanOf s) (hw : w = str t ∨ w.SpanOf t) :
    Decides v w (.text s) (.text t) := by
  have hkinds : ∀ first, (Comparison.of first .str .str).1 = .text ∧
      Comparison.of first .str .span = (.piece, false) ∧
      Comparison.of first .span .str = (.piece, true) ∧
      (Comparison.of first .span .span).1 = .spans := by decide
  intro first
  obtain ⟨htexts, hright, hleft, hspans⟩ := hkinds first
  refine ⟨s == t, ?_, by simp⟩
  unfold compared
  rcases hv with rfl | hv <;> rcases hw with rfl | hw
  · simp only [kindOf]
    rw [htexts]
    simp [equalBy, equalFlat, chars?, plain]
  · rw [hw.kindOf, kindOf, hright]
    simp [equalBy, equalFlat, sharesText_str hw.get_text]
  · rw [hv.kindOf, kindOf, hleft, hv.equalBy_piece]
    simp [equalFlat, sharesText_str hv.get_text, Bool.beq_comm]
  · rw [hv.kindOf, hw.kindOf, hspans, hv.equalBy_spans hw]

theorem equalAll_cons (first : Bool) (v w : Value ω) (vs ws : List (Value ω)) :
    equalAll first (v :: vs) (w :: ws) = (do
      let same ← (if v.identical w = true then .ok true else v.compared first w : Except Fault Bool)
      if same then equalAll first vs ws else return false) := by
  rw [equalAll]
  dsimp only
  split <;> rfl

theorem decides_all (first : Bool) {vs ws : List (Value ω)} {xs ys : List Content}
    (hvs : List.Forall₂ (fun v x => v.Means objectAt x ∧
      ∀ w y, w.Means objectAt y → Decides v w x y) vs xs)
    (hws : List.Forall₂ (Means objectAt) ws ys) :
    ∃ b, equalAll first vs ws = .ok b ∧ (b = true ↔ xs = ys) := by
  induction hvs generalizing ws ys with
  | nil =>
    cases hws with
    | nil => exact ⟨true, rfl, by simp⟩
    | cons => exact ⟨false, rfl, by simp⟩
  | cons hv _ ih =>
    cases hws with
    | nil => exact ⟨false, rfl, by simp⟩
    | cons hw hws =>
      obtain ⟨b, hb, hb'⟩ := hv.1.decides_part hw (hv.2 _ _ hw) first
      obtain ⟨d, hd, hd'⟩ := ih hws
      rw [equalAll_cons, hb]
      cases b
      · exact ⟨false, rfl, by simp [← hb']⟩
      · exact ⟨d, hd, by simp [hd', ← hb']⟩

theorem decides_items (first : Bool) {vs ws : List (Value ω)} {xs ys : List Content}
    (hvs : vs.length = xs.length)
    (hv : ∀ i hi hi', (vs.get ⟨i, hi⟩).Means objectAt (xs.get ⟨i, hi'⟩))
    (ih : ∀ i hi hi' {w y}, w.Means objectAt y → Decides (vs.get ⟨i, hi⟩) w (xs.get ⟨i, hi'⟩) y)
    (hws : ws.length = ys.length)
    (hw : ∀ i hi hi', (ws.get ⟨i, hi⟩).Means objectAt (ys.get ⟨i, hi'⟩)) :
    ∃ b, equalAll first vs ws = .ok b ∧ (b = true ↔ xs = ys) := by
  refine decides_all first ?_ (List.forall₂_iff_get.2 ⟨hws, hw⟩)
  exact List.forall₂_iff_get.2 ⟨hvs, fun i hi hi' => ⟨hv i hi hi', fun _ _ => ih i hi hi'⟩⟩

end Groups

section Outcomes

variable {e f p q : Value ω} {z u : Content} (hv : v.Means objectAt x) (hw : w.Means objectAt y)
  (h : Decides v w x y)

include hv hw h

theorem decides_successes : Decides (ok v) (ok w) (.success x) (.success y) := by
  have hkind : ∀ first, (Comparison.of first .ok .ok).1 = .success := by decide
  intro first
  obtain ⟨b, hb, hxy⟩ := hv.decides_part hw h (Comparison.of first .ok .ok).2
  refine ⟨b, ?_, hxy.trans (by simp)⟩
  unfold compared
  simp only [kindOf]
  rw [hkind, equalBy, if_pos rfl]
  exact hb

theorem decides_failures (hp : p.Means objectAt z) (hq : q.Means objectAt u) (h' : Decides p q z u) :
    Decides (err v p) (err w q) (.failure x z) (.failure y u) := by
  have hkind : ∀ first, (Comparison.of first .err .err).1 = .failure := by decide
  intro first
  obtain ⟨b, hb, hxy⟩ := hv.decides_part hw h (Comparison.of first .err .err).2
  obtain ⟨d, hd, hzu⟩ := hp.decides_part hq h' (Comparison.of first .err .err).2
  have hstep : compared first (err v p) (err w q) = (do
      let same ← (if v.identical w = true then .ok true else
        v.compared (Comparison.of first .err .err).2 w : Except Fault Bool)
      if same then
        if p.identical q = true then .ok true else p.compared (Comparison.of first .err .err).2 q
      else return false) := by
    show equalBy (Comparison.of first .err .err).2 (Comparison.of first .err .err).1 (err v p)
      (err w q) = _
    rw [hkind, equalBy, if_pos rfl]
    simp only [get_err_error, get_err_pos, bind, Except.bind]
    split
    · rfl
    · show _ = Except.bind (v.compared (Comparison.of first .err .err).2 w) _
      rw [compared]
      rcases equalBy _ _ v w with fault | same
      · rfl
      · cases same <;> rfl
  rw [hstep, hb]
  cases b
  · exact ⟨false, rfl, by simp [← hxy]⟩
  · exact ⟨d, hd, by simp [← hxy, hzu]⟩

end Outcomes

section Objects

variable {held held' a b : Value ω} {attributes attributes' : Attributes ω} {mark mark' : Nat}
  {chained chained' : Option Kind} {attr : Attribute}

/-- Objects of one kind that are told by one attribute are compared by it. -/
theorem compared_objects {m : Measure} (hm : Measure.ofKind? k = some m)
    (hattr : (m, attr) ∈ Measure.byAttribute) : compared first (object k held attributes mark chained)
      (object k held' attributes' mark' chained') = (do
        let b ← attributes'.read k attr
        let a ← attributes.read k attr
        a.compared first b) := by
  have hof {c : Comparison} (hc : Comparison.known? k k = some c) :
      Comparison.of first k k = (c, first) := by
    cases first <;> simp [Comparison.of, Comparison.between, hc]
  have hread (hattr : attr = .arguments ∨ attr = .cause) (b : Value ω) :
      equalAt first attr false ((attributes.unset k attr).map fun v => v.identical b) attributes b =
        (do
          let a ← attributes.read k attr
          a.compared first b) := by
    rw [equalAt_eq]
    unfold Attributes.read
    rcases attributes.get? attr with _ | a
    · rcases hattr with rfl | rfl <;> rfl
    · rfl
  show equalBy (Comparison.of first k k).2 (Comparison.of first k k).1 _ _ = _
  simp only [Measure.byAttribute, List.mem_cons, Prod.mk.injEq, List.not_mem_nil, or_false] at hattr
  rcases hattr with ⟨rfl, rfl⟩ | ⟨rfl, rfl⟩
  · rw [hof (c := .arguments) (by simp [Comparison.known?, hm]), equalBy]
    simp only [hread (.inl rfl)]
    rfl
  · rw [hof (c := .cause) (by simp [Comparison.known?, hm]), equalBy]
    simp only [hread (.inr rfl)]
    rfl

/-- Where one of them lacks the attribute there is no telling. -/
theorem equal_of_unset {m : Measure} (hm : Measure.ofKind? k = some m)
    (hattr : (m, attr) ∈ Measure.byAttribute)
    (h : attributes.get? attr = Option.none ∨ attributes'.get? attr = Option.none) :
    (object k held attributes mark chained).equal (object k held' attributes' mark' chained') =
      .error (.noAttribute (.aValue k.label) attr.name) := by
  have hunset (as : Attributes ω) (has : as.get? attr = Option.none) :
      as.read k attr = .error (.noAttribute (.aValue k.label) attr.name) := by
    simp only [Measure.byAttribute, List.mem_cons, Prod.mk.injEq, List.not_mem_nil, or_false] at hattr
    unfold Attributes.read
    rw [has]
    rcases hattr with ⟨-, rfl⟩ | ⟨-, rfl⟩ <;> rfl
  rw [equal_eq_compared, compared_objects hm hattr]
  rcases hb : attributes'.get? attr with _ | b
  · rw [hunset _ hb]
    rfl
  · rw [hunset _ (h.resolve_right (by simp [hb])), Attributes.read, hb]
    rfl

theorem decides_objects {m : Measure} (hm : Measure.ofKind? k = some m)
    (hattr : (m, attr) ∈ Measure.byAttribute) (ha : attributes.get? attr = some a)
    (hb : attributes'.get? attr = some b) (h : Decides a b x y) :
    Decides (object k held attributes mark chained) (object k held' attributes' mark' chained')
      (.object k x) (.object k y) := by
  intro first
  obtain ⟨d, hd, hxy⟩ := h first
  refine ⟨d, ?_, hxy.trans (by simp)⟩
  rw [compared_objects hm hattr, Attributes.read, Attributes.read, ha, hb]
  exact hd

end Objects

section Sequences

variable {vs ws : List (Value ω)} {xs ys : List Content}

theorem decides_lists (h : ∀ first, ∃ b, equalAll first vs ws = .ok b ∧ (b = true ↔ xs = ys))
    (hvs : vs.length = xs.length) (hws : ws.length = ys.length) :
    Decides (list vs) (list ws) (.list xs) (.list ys) := by
  have hkind : ∀ first, (Comparison.of first .list .list).1 = .list := by decide
  intro first
  obtain ⟨b, hb, hxy⟩ := h (Comparison.of first .list .list).2
  show ∃ b, equalBy (Comparison.of first .list .list).2 (Comparison.of first .list .list).1 (list vs)
    (list ws) = .ok b ∧ _
  rw [hkind, equalBy, if_pos rfl]
  split
  · exact ⟨b, hb, hxy.trans (by simp)⟩
  · next hne =>
    refine ⟨false, rfl, by simp, ?_⟩
    rintro ⟨⟩
    exact absurd (hvs.trans hws.symm) hne

theorem decides_tuples (h : ∀ first, ∃ b, equalAll first vs ws = .ok b ∧ (b = true ↔ xs = ys)) :
    Decides (tuple vs) (tuple ws) (.tuple xs) (.tuple ys) := by
  have hkind : ∀ first, (Comparison.of first .tuple .tuple).1 = .tuple := by decide
  intro first
  obtain ⟨b, hb, hxy⟩ := h (Comparison.of first .tuple .tuple).2
  show ∃ b, equalBy (Comparison.of first .tuple .tuple).2 (Comparison.of first .tuple .tuple).1 (tuple vs)
    (tuple ws) = .ok b ∧ _
  rw [hkind, equalBy, if_pos rfl]
  exact ⟨b, hb, hxy.trans (by simp)⟩

end Sequences

section Means

variable {n : Int} {s : String}

/-- The group of an object that is told by an attribute is no other one. -/
theorem Means.ne_object {m : Measure} {a : Attribute} {g : Group} (hm : Measure.ofKind? k = some m)
    (ha : (m, a) ∈ Measure.byAttribute) (hg : g.1 ∉ Measure.byAttribute.map Prod.fst) :
    some g ≠ (Content.object k x).group? := by
  rw [Content.group?_object hm ha]
  rintro ⟨⟩
  exact hg (List.mem_map_of_mem ha)

theorem Means.decides_number (hv : v.Counts n) (hw : w.Means objectAt y)
    (hg : (Content.number n).group? = y.group?) : Decides v w (.number n) y := by
  cases hw with
  | bool b => exact decides_numbers hv (.inr ⟨b, rfl, rfl⟩)
  | int m => exact decides_numbers hv (.inl rfl)
  | object hm ha => exact absurd hg (ne_object hm ha (by decide))
  | _ => cases hg

theorem Means.decides_text (hv : v = Value.str s ∨ v.SpanOf s) (hw : w.Means objectAt y)
    (hg : (Content.text s).group? = y.group?) : Decides v w (.text s) y := by
  cases hw with
  | str t => exact decides_texts hv (.inl rfl)
  | span t => exact decides_texts hv (.inr (.plain t))
  | kept _ ht => exact decides_texts hv (.inr (.kept ht))
  | object hm ha => exact absurd hg (ne_object hm ha (by decide))
  | _ => cases hg

end Means

/-- The comparison of two values that have contents has an answer, which tells whether these are one
content. -/
theorem Means.decides (hv : v.Means objectAt x) (hw : w.Means objectAt y) : Decides v w x y := by
  -- The second value is taken apart only where it is of the same group.
  induction hv generalizing w y with
  | none => exact Means.none.decides_of_group hw fun _ h => absurd rfl h
  | mismatch m => exact (Means.mismatch m).decides_of_group hw fun _ h => absurd rfl h
  | kind k => exact (Means.kind k).decides_of_group hw fun _ h => absurd rfl h
  | itself hm hne hmark => exact (Means.itself hm hne hmark).decides_of_group hw fun _ h => absurd rfl h
  | bool b => exact (Means.bool b).decides_of_group hw fun hg _ => decides_number (.inr ⟨b, rfl, rfl⟩) hw hg
  | int n => exact (Means.int n).decides_of_group hw fun hg _ => decides_number (.inl rfl) hw hg
  | str s => exact (Means.str s).decides_of_group hw fun hg _ => decides_text (.inl rfl) hw hg
  | span t => exact (Means.span t).decides_of_group hw fun hg _ => decides_text (.inr (.plain t)) hw hg
  | kept hmark ht =>
    exact (Means.kept hmark ht).decides_of_group hw fun hg _ => decides_text (.inr (.kept ht)) hw hg
  | list hlength h ih =>
    refine (Means.list hlength h).decides_of_group hw fun hg _ => ?_
    cases hw with
    | list hlength' h' =>
      exact decides_lists (fun first => decides_items first hlength h ih hlength' h') hlength hlength'
    | object hm ha => exact absurd hg (ne_object hm ha (by decide))
    | _ => cases hg
  | tuple hlength h ih =>
    refine (Means.tuple hlength h).decides_of_group hw fun hg _ => ?_
    cases hw with
    | tuple hlength' h' =>
      exact decides_tuples fun first => decides_items first hlength h ih hlength' h'
    | object hm ha => exact absurd hg (ne_object hm ha (by decide))
    | _ => cases hg
  | success h ih =>
    refine (Means.success h).decides_of_group hw fun hg _ => ?_
    cases hw with
    | success h' => exact decides_successes h h' (ih h')
    | object hm ha => exact absurd hg (ne_object hm ha (by decide))
    | _ => cases hg
  | failure he hp ihe ihp =>
    refine (Means.failure he hp).decides_of_group hw fun hg _ => ?_
    cases hw with
    | failure he' hp' => exact decides_failures he he' (ihe he') hp hp' (ihp hp')
    | object hm ha => exact absurd hg (ne_object hm ha (by decide))
    | _ => cases hg
  | object hm hattr hfit hmark ha h ih =>
    refine (Means.object hm hattr hfit hmark ha h).decides_of_group hw fun hg hx => ?_
    cases hw with
    | object hm' hattr' _ _ ha' h' =>
      rw [Content.group?_object hm hattr, Content.group?_object hm' hattr'] at hg
      cases hg
      obtain rfl := Measure.attribute_unique hattr hattr'
      exact decides_objects hm hattr ha ha' (ih h')
    | none | mismatch | kind | itself => exact absurd hg hx
    | _ => exact absurd hg.symm (ne_object hm hattr (by decide))

/-! ## Equality -/

section Equal

variable (hv : v.Means objectAt x) (hw : w.Means objectAt y)

include hv hw

theorem Means.equal_iff : v.equal w = .ok true ↔ x = y := by
  obtain ⟨b, hb, hxy⟩ := hv.decides hw true
  rw [equal_eq_compared, hb, ← hxy]
  simp

theorem Means.exists_equal : ∃ b, v.equal w = .ok b ∧ w.equal v = .ok b ∧ (b = true ↔ x = y) := by
  obtain ⟨b, hb, hxy⟩ := hv.decides hw true
  obtain ⟨d, hd, hyx⟩ := hw.decides hv true
  have hbd : b = d := by
    rw [Bool.eq_iff_iff, hxy, hyx, eq_comm]
  exact ⟨b, hb, hbd ▸ hd, hxy⟩

end Equal

omit [HostObject ω] in
/-- The values whose content is a text are that text and the spans with this text. -/
theorem Means.text_iff {s : String} (h : v.Means objectAt x) :
    x = .text s ↔ v = Value.str s ∨ v.SpanOf s := by
  constructor
  · rintro rfl
    cases h with
    | str => exact .inl rfl
    | span t => exact .inr (.plain t)
    | kept _ ht => exact .inr (.kept ht)
  · rintro (rfl | hs)
    · exact h.unique (.str s)
    · cases hs with
      | plain t => exact h.unique (.span t)
      | kept ht =>
        cases h with
        | kept _ ht' =>
          cases ht.symm.trans ht'
          rfl
        | object hm hattr => exact absurd hm (Measure.of_span hattr)
        | itself hm => exact absurd hm (by decide)

/-- A failure is equal to one that is made anew. -/
theorem exception_equal_self {args : List (Value ω)} {attributes : Attributes ω} {xs : List Content}
    (hm : Measure.ofKind? k = some .arguments) (hfit : (Kind.storagesOf [k]).length ≤ 1)
    (hargs : List.Forall₂ (Means fun _ => Value.none) args xs) :
    (exception k args attributes).equal (exception k args attributes) = .ok true := by
  have hattr : (Measure.arguments, Attribute.arguments) ∈ Measure.byAttribute := by decide
  have h : (exception k args attributes).Means _ _ :=
    .object hm hattr hfit (fun hmark => absurd rfl hmark) rfl (.tuple_of_forall₂ hargs)
  exact (h.equal_iff h).2 rfl

section Attributes

variable {m : Measure} {attr : Attribute} (hattr : (m, attr) ∈ Measure.byAttribute)
  (hm : Measure.ofKind? v.kindOf = some m)

include hattr hm

theorem Means.exists_object (h : v.Means objectAt x) :
    ∃ held a attributes mark chained z,
      v = Value.object v.kindOf held attributes mark chained ∧ attributes.get? attr = some a ∧
        x = .object v.kindOf z := by
  have hg := h.group.symm.trans (Content.group?_object hm hattr .nothing)
  cases h with
  | object hm' hattr' _ _ ha =>
    obtain rfl := Option.some.inj (hm'.symm.trans hm)
    obtain rfl := Measure.attribute_unique hattr hattr'
    exact ⟨_, _, _, _, _, _, rfl, ha, rfl⟩
  | itself hm' => cases hm'.symm.trans hm
  | success | failure =>
    cases hg
    simp [Measure.byAttribute] at hattr
  | _ => cases hg

theorem Means.equal_of_kind_ne (hv : v.Means objectAt x) (hw : w.Means objectAt y)
    (hne : w.kindOf ≠ v.kindOf) : v.equal w = .ok false := by
  obtain ⟨-, -, -, -, -, z, -, -, rfl⟩ := hv.exists_object hattr hm
  obtain ⟨b, hb, -, hxy⟩ := hv.exists_equal hw
  cases b
  · exact hb
  · have hz := hxy.1 rfl
    subst hz
    cases hw
    exact absurd rfl hne

theorem Means.equal_of_kind_eq (hv : v.Means objectAt x) (hw : w.Means objectAt y)
    (heq : w.kindOf = v.kindOf) :
    ∃ a b, v.get attr = .ok a ∧ w.get attr = .ok b ∧ v.equal w = a.equal b := by
  obtain ⟨held, a, attributes, mark, chained, -, hobj, ha, -⟩ := hv.exists_object hattr hm
  obtain ⟨held', b, attributes', mark', chained', -, hobj', hb, -⟩ :=
    hw.exists_object hattr (heq ▸ hm)
  have hra : attributes.read v.kindOf attr = .ok a := by rw [Attributes.read, ha]
  have hrb : attributes'.read v.kindOf attr = .ok b := by rw [Attributes.read, hb]
  rw [heq] at hobj'
  rw [hobj, hobj']
  refine ⟨a, b, hra, hrb, ?_⟩
  rw [equal_eq_compared, compared_objects hm hattr, hra, hrb]
  rfl

end Attributes

/-- Equality is an equivalence of the values that have contents, and tells these apart. A span is equal to
its text and to the spans with this text alone. Failures and unions of two kinds differ; of one kind, they
are equal if their arguments are, or what they wrap. -/
theorem equality_of_contents {u : Value ω} {z : Content} (hu : u.Means objectAt z)
    (hv : v.Means objectAt x) (hw : w.Means objectAt y) :
    v.equal v = .ok true ∧
      (∃ b, v.equal w = .ok b ∧ w.equal v = .ok b ∧ (b = true ↔ x = y)) ∧
      (u.equal v = .ok true → v.equal w = .ok true → u.equal w = .ok true) ∧
      (∀ s, u.SpanOf s → (u.equal v = .ok true ↔ v = str s ∨ v.SpanOf s)) ∧
      ∀ m attr, (m, attr) ∈ Measure.byAttribute → Measure.ofKind? v.kindOf = some m →
        (w.kindOf ≠ v.kindOf → v.equal w = .ok false) ∧
        (w.kindOf = v.kindOf →
          ∃ a b, v.get attr = .ok a ∧ w.get attr = .ok b ∧ v.equal w = a.equal b) := by
  refine ⟨(hv.equal_iff hv).2 rfl, hv.exists_equal hw, ?_, ?_, ?_⟩
  · rw [hu.equal_iff hv, hv.equal_iff hw, hu.equal_iff hw]
    exact Eq.trans
  · intro s hs
    rw [hu.equal_iff hv, hu.text_iff.2 (.inr hs), eq_comm]
    exact hv.text_iff
  · intro m attr hattr hm
    exact ⟨hv.equal_of_kind_ne hattr hm hw, hv.equal_of_kind_eq hattr hm hw⟩

/-- Unions around a failure with a piece of a source, with its text and with another piece that reads so are
equal, also as the errors of failed results at the number one, or at the truth value. -/
theorem equality_of_contents_unions :
    let failure : Kind := .mk "F" 1 [.parseFailure]
    let union : Kind := .mk "U" 2 [.errorUnion]
    let wrapped (a : Value Assignment.Function) (mark : Nat) : Value Assignment.Function :=
      .object failure .none (.cons .arguments (.tuple [a]) .nil) mark Option.none
    let wraps (a : Value Assignment.Function) (mark : Nat) : Value Assignment.Function :=
      .object union .none (.cons .cause (wrapped a mark) .nil) (mark + 1) Option.none
    let a : Span := ⟨"xay".toList, 1, 2⟩
    let b : Span := ⟨"a".toList, 0, 1⟩
    let u := err (wraps (.span a) 1) (.int 1)
    let v := err (wraps (.str "a") 3) (.bool true)
    let w := err (wraps (.span b) 5) (.int 1)
    let objectAt : Nat → Value Assignment.Function
      | 1 => wrapped (.span a) 1
      | 2 => wraps (.span a) 1
      | 3 => wrapped (.str "a") 3
      | 4 => wraps (.str "a") 3
      | 5 => wrapped (.span b) 5
      | 6 => wraps (.span b) 5
      | _ => .none
    let x : Content := .failure (.object union (.object failure (.tuple [.text "a"]))) (.number 1)
    u.Means objectAt x ∧ v.Means objectAt x ∧ w.Means objectAt x ∧ u.equal v = .ok true ∧
      v.equal w = .ok true ∧ u.equal w = .ok true := by
  intro failure union wrapped wraps a b u v w objectAt x
  have wraps_means {c : Value Assignment.Function} {mark : Nat} (hc : c.Means objectAt (.text "a"))
      (hin : objectAt mark = wrapped c mark) (hout : objectAt (mark + 1) = wraps c mark) :
      (wraps c mark).Means objectAt (.object union (.object failure (.tuple [.text "a"]))) := by
    have htuple : (Value.tuple [c]).Means objectAt (.tuple [.text "a"]) :=
      .tuple_of_forall₂ (.cons hc .nil)
    have harguments : (Measure.arguments, Attribute.arguments) ∈ Measure.byAttribute := by decide
    have hcause : (Measure.cause, Attribute.cause) ∈ Measure.byAttribute := by decide
    have hin : (wrapped c mark).Means objectAt (.object failure (.tuple [.text "a"])) :=
      .object (by decide) harguments (by decide) (fun _ => hin) rfl htuple
    exact .object (by decide) hcause (by decide) (fun _ => hout) rfl hin
  have hu : u.Means objectAt x := .failure (wraps_means (.span a) rfl rfl) (.int 1)
  have hv : v.Means objectAt x := .failure (wraps_means (.str "a") rfl rfl) (.bool true)
  have hw : w.Means objectAt x := .failure (wraps_means (.span b) rfl rfl) (.int 1)
  obtain ⟨-, ⟨c, hvw, -, hc⟩, htrans, -⟩ := equality_of_contents hu hv hw
  have huv : u.equal v = .ok true := (hu.equal_iff hv).2 rfl
  rw [hc.2 rfl] at hvw
  exact ⟨hu, hv, hw, huv, hvw, htrans huv hvw⟩

/-- A union whose kind inherits from another exception before the kind of unions has no cause, and is not
equal to itself. -/
theorem not_equal_of_union_without_cause :
    let union : Kind := .mk "VU" 1 [.valueError, .errorUnion]
    ∃ (e v : Value Assignment.Function), construct .wordError [] = .ok e ∧ construct union [e] = .ok v ∧
      v.equal v = .error (.noAttribute (.aValue union.label) "cause") := by
  intro union
  have hcause : (Measure.cause, Attribute.cause) ∈ Measure.byAttribute := by decide
  have hm : Measure.ofKind? union = some .cause := by decide
  exact ⟨_, _, rfl, rfl, equal_of_unset hm hcause (.inl rfl)⟩

end Value

end ParserAlgebra
