import ParserAlgebra.Proofs.Questions

/-!
# Values of a shifted input

The same characters stand in an input from some place on, and at the start of what is left of the input
there. A span of the one is a span of the other, with its bounds shifted by the place. Values are shifted
(`Value.Shifted`) if they are put together in the same way and differ only in such spans. What is asked
of two such values has the same answer (`Value.Shifted.kindOf_eq`, `Value.Shifted.truthy_eq`), or
answers that are shifted again (`Value.Shifted.get`). Their shown forms may differ, but either both
values have one or neither has (`Value.Shifted.shown?`). A kind that does not read what it is called with
makes shifted values of them (`Value.told_construct`).
-/

namespace ParserAlgebra

variable {ω α β : Type}

/-- Two questions that are answered alike, or met with the same fault. -/
inductive Told {α' β' : Type} (P : α' → β' → Prop) : Except Fault α' → Except Fault β' → Prop
  | ok {a : α'} {b : β'} (h : P a b) : Told P (.ok a) (.ok b)
  | error (f : Fault) : Told P (.error f) (.error f)

namespace Told

variable {α' β' : Type} {P : α → β → Prop} {Q : α' → β' → Prop} {x : Except Fault α}
  {y : Except Fault β}

theorem refl {R : α → α → Prop} (hR : ∀ a, R a a) (x : Except Fault α) : Told R x x := by
  rcases x with f | a
  · exact .error f
  · exact .ok (hR a)

theorem eq {x y : Except Fault α} (h : Told Eq x y) : x = y := by
  cases h with
  | ok h => exact congrArg _ h
  | error f => rfl

protected theorem bind {f : α → Except Fault α'} {g : β → Except Fault β'} (h : Told P x y)
    (hf : ∀ a b, P a b → Told Q (f a) (g b)) : Told Q (x >>= f) (y >>= g) := by
  cases h with
  | ok h => exact hf _ _ h
  | error e => exact .error e

theorem map {f : α → α'} {g : β → β'} (h : Told P x y) (hf : ∀ a b, P a b → Q (f a) (g b)) :
    Told Q (x.map f) (y.map g) := by
  cases h with
  | ok h => exact .ok (hf _ _ h)
  | error e => exact .error e

theorem ite {c : Prop} [Decidable c] {x' : Except Fault α} {y' : Except Fault β} (h : c → Told P x y)
    (h' : ¬ c → Told P x' y') : Told P (if c then x else x') (if c then y else y') := by
  split
  · next hc => exact h hc
  · next hc => exact h' hc

end Told

/-- A place in an input, and the objects of the host program that are the same but for what they hold
of the input from there. -/
structure Shift (ω : Type) [HostObject ω] where
  source : List Char
  start : Nat
  object : ω → ω → Prop
  refl : ∀ o, object o o
  kind : ∀ {o o'}, object o o' → HostObject.kind o = HostObject.kind o'
  holder : ∀ {o o'}, object o o' → HostObject.holder o = HostObject.holder o'
  length? : ∀ {o o'}, object o o' → HostObject.length? o = HostObject.length? o'

variable [HostObject ω]

mutual
/-- The second value is the first one, with the spans of the input as spans of what is left of it. -/
inductive Value.Shifted (S : Shift ω) : Value ω → Value ω → Prop
  | none : Value.Shifted S .none .none
  | bool (b : Bool) : Value.Shifted S (.bool b) (.bool b)
  | int (n : Int) : Value.Shifted S (.int n) (.int n)
  | str (s : String) : Value.Shifted S (.str s) (.str s)
  | list {vs ws : List (Value ω)} (h : Value.AllShifted S vs ws) : Value.Shifted S (.list vs) (.list ws)
  | tuple {vs ws : List (Value ω)} (h : Value.AllShifted S vs ws) : Value.Shifted S (.tuple vs) (.tuple ws)
  /-- A span that is not of the input. -/
  | other (s : Span) : Value.Shifted S (.span s) (.span s)
  | span (i j : Nat) : Value.Shifted S (.span ⟨S.source, S.start + i, S.start + j⟩)
      (.span ⟨S.source.drop S.start, i, j⟩)
  | mismatch (m : Mismatch) : Value.Shifted S (.mismatch m) (.mismatch m)
  | kind (k : Kind) : Value.Shifted S (.kind k) (.kind k)
  | ok {v w : Value ω} (h : Value.Shifted S v w) : Value.Shifted S (.ok v) (.ok w)
  | err {e e' p p' : Value ω} (he : Value.Shifted S e e') (hp : Value.Shifted S p p') :
      Value.Shifted S (.err e p) (.err e' p')
  | object (k : Kind) {held held' : Value ω} {as bs : Attributes ω} (mark : Nat)
      (chained : Option Kind) (h : Value.Shifted S held held') (hs : Attributes.Shifted S as bs) :
      Value.Shifted S (.object k held as mark chained) (.object k held' bs mark chained)
  | host {o o' : ω} (h : S.object o o') : Value.Shifted S (.host o) (.host o')
inductive Value.AllShifted (S : Shift ω) : List (Value ω) → List (Value ω) → Prop
  | nil : Value.AllShifted S [] []
  | cons {v w : Value ω} {vs ws : List (Value ω)} (h : Value.Shifted S v w)
      (hs : Value.AllShifted S vs ws) : Value.AllShifted S (v :: vs) (w :: ws)
inductive Attributes.Shifted (S : Shift ω) : Attributes ω → Attributes ω → Prop
  | nil : Attributes.Shifted S .nil .nil
  | cons (a : Attribute) {v w : Value ω} {as bs : Attributes ω} (h : Value.Shifted S v w)
      (hs : Attributes.Shifted S as bs) : Attributes.Shifted S (.cons a v as) (.cons a w bs)
end

variable {S : Shift ω} {v w : Value ω} {as bs : Attributes ω}

/-! ## Nothing of the input -/

mutual
theorem Value.Shifted.refl : ∀ v : Value ω, v.Shifted S v
  | .none => .none
  | .bool b => .bool b
  | .int n => .int n
  | .str s => .str s
  | .list vs => .list (Value.AllShifted.refl vs)
  | .tuple vs => .tuple (Value.AllShifted.refl vs)
  | .span s => .other s
  | .mismatch m => .mismatch m
  | .kind k => .kind k
  | .ok v => .ok (Value.Shifted.refl v)
  | .err e p => .err (Value.Shifted.refl e) (Value.Shifted.refl p)
  | .object k held as m ch => .object k m ch (Value.Shifted.refl held) (Attributes.Shifted.refl as)
  | .host o => .host (S.refl o)
theorem Value.AllShifted.refl : ∀ vs : List (Value ω), Value.AllShifted S vs vs
  | [] => .nil
  | v :: vs => .cons (Value.Shifted.refl v) (Value.AllShifted.refl vs)
theorem Attributes.Shifted.refl : ∀ as : Attributes ω, as.Shifted S as
  | .nil => .nil
  | .cons a v as => .cons a (Value.Shifted.refl v) (Attributes.Shifted.refl as)
end

theorem Value.AllShifted.append {vs ws vs' ws' : List (Value ω)} (h : Value.AllShifted S vs ws)
    (h' : Value.AllShifted S vs' ws') : Value.AllShifted S (vs ++ vs') (ws ++ ws') := by
  induction vs generalizing ws with
  | nil => cases h; exact h'
  | cons v vs ih =>
    cases h with
    | cons hv hs => exact .cons hv (ih hs)

theorem Value.AllShifted.reverse {vs ws : List (Value ω)} (h : Value.AllShifted S vs ws) :
    Value.AllShifted S vs.reverse ws.reverse := by
  induction vs generalizing ws with
  | nil => cases h; exact .nil
  | cons v vs ih =>
    cases h with
    | cons hv hs =>
      rw [List.reverse_cons, List.reverse_cons]
      exact (ih hs).append (.cons hv .nil)

/-! ## Questions -/

namespace Value.Shifted

theorem kindOf_eq (h : v.Shifted S w) : v.kindOf = w.kindOf := by
  cases h with
  | host h => exact S.kind h
  | _ => rfl

theorem isA_eq (h : v.Shifted S w) (k : Kind) : v.isA k = w.isA k := by
  unfold Value.isA
  rw [h.kindOf_eq]

theorem holder_eq (h : v.Shifted S w) : v.holder = w.holder := by
  cases h with
  | host h => exact S.holder h
  | _ => rfl

theorem withoutItems_eq (h : v.Shifted S w) : v.withoutItems = w.withoutItems := by
  unfold Value.withoutItems
  rw [h.holder_eq, h.kindOf_eq]

theorem toInt?_eq (h : v.Shifted S w) : v.toInt? = w.toInt? := by
  cases h with
  | object k m ch h _ => cases h <;> rfl
  | _ => rfl

end Value.Shifted

namespace Attributes.Shifted

/-- The attribute is set in neither, or in both to values that are shifted. -/
theorem get? (a : Attribute) {as bs : Attributes ω} (h : as.Shifted S bs) :
    (as.get? a = none ∧ bs.get? a = none) ∨
      ∃ v w, as.get? a = some v ∧ bs.get? a = some w ∧ v.Shifted S w := by
  cases h with
  | nil => exact .inl ⟨rfl, rfl⟩
  | cons b hv hs =>
    by_cases hb : b = a
    · exact .inr ⟨_, _, by rw [Attributes.get?_cons, if_pos hb], by rw [Attributes.get?_cons, if_pos hb],
        hv⟩
    · rw [Attributes.get?_cons, Attributes.get?_cons, if_neg hb, if_neg hb]
      exact get? a hs

theorem unset_eq (h : as.Shifted S bs) (k : Kind) (a : Attribute) : as.unset k a = bs.unset k a := by
  unfold Attributes.unset
  cases a with
  | text =>
    rcases h.get? .source with ⟨ha, hb⟩ | ⟨v, w, ha, hb, hvw⟩
    · rw [ha, hb]
    · rw [ha, hb]
      exact congrArg (fun m => Except.error (Fault.misused m)) hvw.withoutItems_eq
  | _ => rfl

theorem read (h : as.Shifted S bs) (k : Kind) (a : Attribute) :
    Told (Value.Shifted S) (as.read k a) (bs.read k a) := by
  unfold Attributes.read
  rcases h.get? a with ⟨ha, hb⟩ | ⟨v, w, ha, hb, hvw⟩ <;> rw [ha, hb]
  · rw [h.unset_eq]
    exact .refl Value.Shifted.refl _
  · exact .ok hvw

theorem bound_eq (h : as.Shifted S bs) (k : Kind) (a : Attribute) :
    Value.bound k as a = Value.bound k bs a := by
  exact ((h.read k a).map fun v w hvw => by rw [hvw.toInt?_eq]).eq

end Attributes.Shifted

namespace Value.Shifted

theorem lacks_eq (h : v.Shifted S w) (said : String) : v.lacks said = w.lacks said := by
  unfold Value.lacks
  rw [h.holder_eq]

/-- What is asked of an outcome. The bounds of a span are places of its input, and differ. -/
theorem get (h : v.Shifted S w) {a : Attribute} (ha : a = .value ∨ a = .error ∨ a = .pos) :
    Told (Value.Shifted S) (v.get a) (w.get a) := by
  have hlacks : Told (Value.Shifted S) (.error (v.lacks a.name)) (.error (w.lacks a.name)) := by
    rw [h.lacks_eq]
    exact .error _
  cases h with
  | object k m ch _ hs => exact hs.read k a
  | ok h => rcases ha with rfl | rfl | rfl <;> first | exact .ok h | exact hlacks
  | err he hp =>
    rcases ha with rfl | rfl | rfl
    · exact hlacks
    · exact .ok he
    · exact .ok hp
  | _ => rcases ha with rfl | rfl | rfl <;> exact hlacks

/-- Spans that are shifted have the same length. -/
theorem truthy_eq {v w : Value ω} (h : v.Shifted S w) : v.truthy = w.truthy := by
  cases h with
  | list h | tuple h => cases h <;> rfl
  | span i j => simp [Value.truthy]
  | object k m ch h hs =>
    rw [Value.truthy, Value.truthy]
    cases Truth.ofKind k with
    | plain => exact truthy_eq h
    | extent =>
      dsimp only
      rw [hs.bound_eq, hs.bound_eq]
    | always | never => rfl
  | host h => rw [Value.truthy, Value.truthy, S.length? h]
  | none | bool _ | int _ | str _ | other _ | mismatch _ | kind _ | ok _ | err _ _ => rfl

end Value.Shifted

open ParserAlgebra.Value (shownAll? shownAt? shownArguments?)

mutual
theorem Value.Shifted.shown? : ∀ {v w : Value ω}, v.Shifted S w →
    Told (fun _ _ => True) v.shown? w.shown?
  | _, _, .none | _, _, .bool _ | _, _, .str _ | _, _, .other _ | _, _, .span _ _ | _, _, .mismatch _
  | _, _, .kind _ | _, _, .host _ => by
    simp only [Value.shown?]
    exact .ok trivial
  | _, _, .int n => .refl (fun _ => trivial) _
  | _, _, .list h => by
    rw [Value.shown?, Value.shown?]
    exact (Value.AllShifted.shownAll? h).bind fun _ _ _ => .ok trivial
  | _, _, .tuple h => by
    rw [Value.shown?, Value.shown?]
    exact (Value.AllShifted.shownAll? h).bind fun _ _ _ => .ok trivial
  | _, _, .ok h => by
    rw [Value.shown?, Value.shown?]
    exact (Value.Shifted.shown? h).bind fun _ _ _ => .ok trivial
  | _, _, .err he hp => by
    rw [Value.shown?, Value.shown?]
    exact (Value.Shifted.shown? he).bind fun _ _ _ =>
      (Value.Shifted.shown? hp).bind fun _ _ _ => .ok trivial
  | .object _ _ as _ _, .object _ _ bs _ _, .object k m ch h hs => by
    have at? (a : Attribute) : Told (fun _ _ => True)
        (shownAt? a ((as.unset k a).map fun _ => "None") as)
        (shownAt? a ((bs.unset k a).map fun _ => "None") bs) := by
      rw [hs.unset_eq]
      exact Attributes.Shifted.shownAt? a _ hs
    rw [Value.shown?, Value.shown?]
    split
    · exact Value.Shifted.shown? h
    · exact (at? _).bind fun _ _ _ => (at? _).bind fun _ _ _ => (at? _).bind fun _ _ _ => .ok trivial
    · exact (at? _).bind fun _ _ _ => .ok trivial
    · exact (at? _).bind fun _ _ _ => (at? _).bind fun _ _ _ => .ok trivial
    · exact (at? _).bind fun _ _ _ => .ok trivial
    · exact (at? _).bind fun _ _ _ => .ok trivial
    · exact (Attributes.Shifted.shownArguments? hs).bind fun _ _ _ => .ok trivial
    · exact .ok trivial
theorem Value.AllShifted.shownAll? : ∀ {vs ws : List (Value ω)}, Value.AllShifted S vs ws →
    Told (fun _ _ => True) (shownAll? vs) (shownAll? ws)
  | _, _, .nil => by
    simp only [Value.shownAll?]
    exact .ok trivial
  | _, _, .cons h hs => by
    rw [Value.shownAll?, Value.shownAll?]
    exact (Value.Shifted.shown? h).bind fun _ _ _ =>
      (Value.AllShifted.shownAll? hs).bind fun _ _ _ => .ok trivial
theorem Attributes.Shifted.shownAt? (a : Attribute) (unset : Except Fault String) :
    ∀ {as bs : Attributes ω}, as.Shifted S bs →
      Told (fun _ _ => True) (shownAt? a unset as) (shownAt? a unset bs)
  | _, _, .nil => by
    rw [Value.shownAt?]
    exact .refl (fun _ => trivial) _
  | _, _, .cons b h hs => by
    rw [Value.shownAt?, Value.shownAt?]
    split
    · exact Value.Shifted.shown? h
    · exact Attributes.Shifted.shownAt? a unset hs
theorem Attributes.Shifted.shownArguments? : ∀ {as bs : Attributes ω}, as.Shifted S bs →
    Told (fun _ _ => True) (shownArguments? as) (shownArguments? bs)
  | _, _, .nil => by
    simp only [Value.shownArguments?]
    exact .ok trivial
  | _, _, .cons a h hs => by
    unfold Value.shownArguments?
    split
    · cases h with
      | tuple h => exact Value.AllShifted.shownAll? h
      | _ => exact .ok trivial
    · exact Attributes.Shifted.shownArguments? hs
end

/-! ## Making values -/

/-- The kinds that read what they are called with: as a number, as a text, or for its items. -/
def Kind.readers : List Kind := [.int, .str, .list, .tuple, .span, .nonAdvancingParser, .conversionError]

/-- The objects of the kind hold what it is called with as it is. -/
def Kind.Holds (k : Kind) : Prop := ∀ r ∈ Kind.readers, r ∉ k.lineage

namespace Value

theorem AllShifted.length_eq {vs ws : List (Value ω)} (h : AllShifted S vs ws) : vs.length = ws.length := by
  induction vs generalizing ws with
  | nil => cases h; rfl
  | cons v vs ih =>
    cases h with
    | cons _ hs => exact congrArg (· + 1) (ih hs)

theorem AllShifted.arityFault_eq {vs ws : List (Value ω)} (h : AllShifted S vs ws) (k : Kind)
    (needed : List String) (most : Nat) : arityFault k needed most vs = arityFault k needed most ws := by
  unfold arityFault
  rw [h.length_eq]

structure Draft.Shifted (S : Shift ω) (d d' : Draft ω) : Prop where
  held : d.held.Shifted S d'.held
  attributes : d.attributes.Shifted S d'.attributes

namespace Draft.Shifted

variable {d d' : Draft ω}

theorem set (h : d.Shifted S d') (a : Attribute) (hv : v.Shifted S w) : (d.set a v).Shifted S (d'.set a w) :=
  ⟨h.held, .cons a hv h.attributes⟩

theorem assign (h : d.Shifted S d') (k : Kind) (a : Attribute) (hv : v.Shifted S w) :
    Told (Draft.Shifted S) (d.assign k a v) (d'.assign k a w) := by
  unfold Draft.assign
  split
  · exact .error _
  · exact .ok (h.set a hv)

end Draft.Shifted

theorem told_allot {k : Kind} (hk : k.Holds) {vs ws : List (Value ω)} (h : AllShifted S vs ws) :
    Told (Draft.Shifted S) (allot k vs) (allot k ws) := by
  have hreads : ∀ r ∈ Kind.readers, ∀ m, (r, m) ∈ Maker.table → Maker.ofKind? k ≠ some m := by
    have hone : ∀ r ∈ Kind.readers, ∀ e ∈ Maker.table, (r, e.2) ∈ Maker.table → e.1 = r := by decide
    intro r hr m hm hk'
    obtain ⟨t, ht, hkt⟩ := Kind.exists_of_nearest? hk'
    obtain rfl : t = r := hone r hr _ ht hm
    exact hk t hr (Kind.isA_iff.1 hkt)
  unfold allot
  have hempty : (Draft.empty : Draft ω).Shifted S .empty := ⟨.none, .nil⟩
  rcases hm : Maker.ofKind? k with _ | m
  · exact .ok hempty
  · cases m with
    | refused => exact .error _
    | exception => exact .ok (hempty.set .arguments (.tuple h))
    | number => exact absurd hm (hreads .int (by decide) _ (by decide))
    | text => exact absurd hm (hreads .str (by decide) _ (by decide))
    | list => exact absurd hm (hreads .list (by decide) _ (by decide))
    | tuple => exact absurd hm (hreads .tuple (by decide) _ (by decide))

/-- Along a lineage in which no kind reads what it is called with. -/
theorem told_prepare (made : Kind) : ∀ {ks : List Kind}, (∀ r ∈ Kind.readers, r ∉ ks) →
    ∀ {vs ws : List (Value ω)} {d d' : Draft ω}, AllShifted S vs ws → d.Shifted S d' →
      Told (Draft.Shifted S) (prepare made ks vs d) (prepare made ks ws d')
  | [], _, _, _, _, _, _, hd => .ok hd
  | k :: rest, hks, vs, ws, d, d', h, hd => by
    have hrest : ∀ r ∈ Kind.readers, r ∉ rest := fun r hr hin => hks r hr (List.mem_cons_of_mem k hin)
    have hne (r : Kind) (hr : r ∈ Kind.readers) : k ≠ r := fun he => hks r hr (he ▸ List.mem_cons_self ..)
    have arity (needed : List String) (most : Nat) : Told (Draft.Shifted S)
        (.error (arityFault k needed most vs)) (.error (arityFault k needed most ws)) := by
      rw [h.arityFault_eq]
      exact .error _
    have take {e e' r r' : Value ω} (he : e.Shifted S e') (hr : r.Shifted S r') :=
      (told_prepare made hrest (.cons he (.cons hr .nil)) hd).bind fun x y hxy =>
        (hxy.assign made .expected he).bind fun x y hxy => hxy.assign made .reason hr
    have found {e e' : Value ω} (he : e.Shifted S e') :=
      (told_prepare made hrest (.cons he .nil) hd).bind fun x y hxy => hxy.assign made .found he
    conv => congr <;> unfold prepare
    -- One branch for each class, in the order in which they are asked for. Those that read their argument
    -- are not in the row; of the others there remains to see how many arguments they are given.
    refine .ite (fun _ => .ok (hd.set .arguments (.tuple h))) fun _ => ?_
    refine .ite (fun _ => ?_) fun _ => .ite (fun _ => ?_) fun _ => .ite (fun _ => ?_) fun _ =>
      .ite (fun _ => ?_) fun _ => .ite (fun hk => absurd hk (hne _ (by decide))) fun _ =>
      .ite (fun hk => absurd hk (hne _ (by decide))) fun _ =>
      .ite (fun hk => absurd hk (hne _ (by decide))) fun _ => .ite (fun _ => ?_) fun _ =>
      .ite (fun _ => ?_) fun _ => .ite (fun _ => ?_) fun _ =>
      .ite (fun hk => absurd hk (hne _ (by decide))) fun _ => told_prepare made hrest h hd
    · rcases h with _ | ⟨hv, _ | ⟨hw, hs⟩⟩
      · exact arity ..
      · exact (told_prepare made hrest (.cons hv .nil) hd).bind fun x y hxy => hxy.assign made .cause hv
      · exact arity ..
    · rcases h with _ | ⟨hv, hs⟩
      · exact told_prepare made hrest .nil hd
      · exact arity ..
    · rcases h with _ | ⟨hv, _ | ⟨hw, _ | ⟨hu, hs⟩⟩⟩
      · exact arity ..
      · exact take hv (.mismatch _)
      · exact take hv hw
      · exact arity ..
    · rcases h with _ | ⟨hv, _ | ⟨hw, hs⟩⟩
      · exact found (.str "")
      · exact found hv
      · exact arity ..
    · rcases h with _ | ⟨hv, _ | ⟨hw, hs⟩⟩
      · exact arity ..
      · exact .ok (hd.set .value hv)
      · exact arity ..
    · rcases h with _ | ⟨hv, _ | ⟨hw, _ | ⟨hu, hs⟩⟩⟩
      · exact arity ..
      · exact .ok ((hd.set .pos .none).set .error hv)
      · exact .ok ((hd.set .pos hw).set .error hv)
      · exact arity ..
    · rcases h with _ | ⟨hv, _ | ⟨hw, hs⟩⟩
      · exact arity ..
      · exact hd.assign made .number hv
      · exact arity ..

theorem told_finish {k : Kind} (hk : k.Holds) {d d' : Draft ω} (h : d.Shifted S d') :
    (finish k d).Shifted S (finish k d') := by
  have hne (r : Kind) (hr : r ∈ Kind.readers) : k ≠ r := fun he => hk r hr (he ▸ Kind.self_mem_lineage k)
  have read (a : Attribute) :
      ((d.attributes.get? a).getD .none).Shifted S ((d'.attributes.get? a).getD .none) := by
    rcases h.attributes.get? a with ⟨ha, hb⟩ | ⟨v, w, ha, hb, hvw⟩
    · rw [ha, hb]
      exact .none
    · rw [ha, hb]
      exact hvw
  have hplain : ¬ (k = .int ∨ k = .str ∨ k = .list ∨ k = .tuple) := by
    simp [hne .int (by decide), hne .str (by decide), hne .list (by decide), hne .tuple (by decide)]
  unfold finish
  rw [if_neg hplain, if_neg hplain]
  split
  · exact .ok (read .value)
  split
  · exact .err (read .error) (read .pos)
  rw [if_neg (hne .span (by decide)), if_neg (hne .span (by decide))]
  exact .object k 0 Option.none h.held h.attributes

/-- A kind that holds what it is called with as it is makes shifted values of shifted ones. -/
theorem told_construct {k : Kind} (hk : k.Holds) {vs ws : List (Value ω)} (h : AllShifted S vs ws) :
    Told (Value.Shifted S) (construct k vs) (construct k ws) := by
  have hbool : k ≠ .bool := by
    rintro rfl
    exact hk .int (by decide) (by decide)
  unfold construct
  rw [if_neg hbool, if_neg hbool]
  refine .ite (fun _ => ?_) fun _ => ?_
  · cases h with
    | nil => exact .ok .none
    | cons => exact .error _
  · have hempty : ws.isEmpty = vs.isEmpty := by cases h <;> rfl
    rw [hempty]
    refine .ite (fun _ => .error _) fun _ => ?_
    exact (told_allot hk h).bind fun d d' hd => (told_prepare k hk h hd).bind fun x y hxy =>
      .ok (told_finish hk hxy)

end Value

end ParserAlgebra
