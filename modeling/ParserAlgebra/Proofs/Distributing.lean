import ParserAlgebra.Proofs.Builtins
import ParserAlgebra.Proofs.SideBySide
import ParserAlgebra.Proofs.Tree

/-!
# Converting at the root and at the leaves

Where all leaves of a tree declare one kind of error or none, its error can be converted at the end,
or the error of each leaf at once: the outcome is the same (`Tree.converting_distributes`). In between
the errors are of different kinds on the two sides, but nothing looks at them: what is joined is
joined under one kind, into which its errors need no conversion, and a failure that is given up for
another way on is given up on both sides.
-/

namespace ParserAlgebra

variable {ω σ τ : Type}

namespace Tree

/-- Another parser in place of each leaf. -/
def mapLeaves (f : Parser ω → Parser ω) : Tree ω → Tree ω
  | leaf p => leaf (f p)
  | seq x y => seq (x.mapLeaves f) (y.mapLeaves f)
  | alt x y => alt (x.mapLeaves f) (y.mapLeaves f)
  | map x g => map (x.mapLeaves f) g
  | rewind x => rewind (x.mapLeaves f)
  | many1 x => many1 (x.mapLeaves f)
  | sepBy1 x sep => sepBy1 (x.mapLeaves f) (sep.mapLeaves f)
  | option default x => option default (x.mapLeaves f)
  | many x => many (x.mapLeaves f)
  | sepBy x sep => sepBy (x.mapLeaves f) (sep.mapLeaves f)
  | traced label x => traced label (x.mapLeaves f)

@[simp] theorem mapLeaves_id (x : Tree ω) : x.mapLeaves id = x := by
  induction x <;> simp_all [mapLeaves]

theorem leaves_mapLeaves (f : Parser ω → Parser ω) (x : Tree ω) :
    (x.mapLeaves f).leaves = x.leaves.map f := by
  induction x <;> simp_all [mapLeaves, leaves]

/-- The functions of the host program that are applied to values. -/
def functions : Tree ω → List ω
  | leaf _ => []
  | seq x y | alt x y | sepBy1 x y | sepBy x y => x.functions ++ y.functions
  | map x (.function f) => f :: x.functions
  | map x _ | rewind x | many1 x | option _ x | many x | traced _ x => x.functions

variable [HostObject ω]

open ParserAlgebra.Parser

/-- Builds the parser of a tree, given how the leaves are built. -/
def build (leaf : Parser ω → Action ω σ (Parser ω)) : Tree ω → Action ω σ (Parser ω)
  | .leaf p => leaf p
  | seq x y => do mkSeq (← x.build leaf) (← y.build leaf)
  | alt x y => do mkAlt (← x.build leaf) (← y.build leaf)
  | map x f => return .map (← x.build leaf) f
  | rewind x => return .rewind (← x.build leaf)
  | many1 x => do mkMany1 (← x.build leaf)
  | sepBy1 x sep => return .sepBy1 (← x.build leaf) (← sep.build leaf)
  | option default x => return .option default (← x.build leaf)
  | many x => return .many (← x.build leaf)
  | sepBy x sep => return .sepBy (← x.build leaf) (← sep.build leaf)
  | traced label x => return .traced label (← x.build leaf)

end Tree

theorem Action.bind_of_pure {α β : Type} {c : Context ω} {x : Action ω σ α} {a : α}
    {f : α → Action ω σ β} (h : x c = (Pure.pure a : Action ω σ α) c) : (x >>= f) c = f a c := by
  funext s
  rw [bind_apply, h, pure_apply]

variable [HostObject ω] {cb : Callbacks ω σ} {c : Context ω} {view : σ → τ} {S T k : Kind}

/-! ## One kind of error -/

/-- Nothing is declared but the kind `k`, or no error at all. -/
def Declared.Only (k : Kind) (d : Declared ω) : Prop := d = .kind k ∨ d.isInfallible = true

namespace Declared.Only

variable {d e : Declared ω}

omit [HostObject ω] in
theorem joined (hd : d.Only k) (he : e.Only k) : (Registry.joined d e).Only k := by
  unfold Registry.joined
  split
  · exact he
  · exact hd

theorem canConvert {r : Registry ω} (hd : d.Only S) (h : (r.find? S T).isSome = true) :
    r.canConvert d (.kind T) = .ok true := by
  rcases hd with rfl | hi
  · simp [Registry.canConvert_kind, h]
  · rcases d with l | v
    · have hl : l.isInfallible = true := hi
      simp [Registry.canConvert_kind, hl]
    · cases hi

theorem joins {r : Registry ω} (hd : d.Only k) (he : e.Only k) : r.Joins d e := by
  rcases hd with rfl | hi
  · refine ⟨k, rfl, .inr (.inr ?_)⟩
    rcases he with rfl | hi
    · simp [Registry.canConvert_kind, Kind.isA_refl]
    · rcases e with l | v
      · have hl : l.isInfallible = true := hi
        simp [Registry.canConvert_kind, hl]
      · cases hi
  · rcases d with l | v
    · exact ⟨l, rfl, .inl hi⟩
    · cases hi

end Declared.Only

namespace Tree

open ParserAlgebra.Parser

theorem only_of_leaves {x : Tree ω} (hl : ∀ p ∈ x.leaves, p.declares.Only k) :
    x.parser.declares.Only k := by
  induction x with
  | leaf p => exact hl p (List.mem_singleton_self p)
  | seq x y ihx ihy =>
    obtain ⟨hlx, hly⟩ := List.forall_mem_append.1 hl
    exact (ihx hlx).joined (ihy hly)
  | alt x y ihx ihy =>
    obtain ⟨hlx, hly⟩ := List.forall_mem_append.1 hl
    exact (ihx hlx).joined (ihy hly)
  | many1 x ih => exact (ih hl).joined (.inr rfl)
  | sepBy1 x y ih _ => exact ih (List.forall_mem_append.1 hl).1
  | map x f ih => exact ih hl
  | rewind x ih => exact ih hl
  | traced label x ih => exact ih hl
  | option default x => exact .inr rfl
  | many x => exact .inr rfl
  | sepBy x y => exact .inr rfl

section Build

variable (leaf : Parser ω → Action ω σ (Parser ω)) {f : Parser ω → Parser ω}

theorem only_of_mapLeaves {x : Tree ω} (hf : ∀ p ∈ x.leaves, (f p).declares.Only k) :
    (x.mapLeaves f).parser.declares.Only k :=
  only_of_leaves (by simpa [leaves_mapLeaves] using hf)

theorem build_returned {x : Tree ω} (hf : ∀ p ∈ x.leaves, (f p).declares.Only k)
    (hl : ∀ p ∈ x.leaves, leaf p c = (Pure.pure (f p) : Action ω σ (Parser ω)) c) :
    x.build leaf c = (Pure.pure (x.mapLeaves f).parser : Action ω σ (Parser ω)) c := by
  induction x with
  | leaf p => exact hl p (List.mem_singleton_self p)
  | seq x y ihx ihy =>
    obtain ⟨hfx, hfy⟩ := List.forall_mem_append.1 hf
    obtain ⟨hlx, hly⟩ := List.forall_mem_append.1 hl
    rw [build, Action.bind_of_pure (ihx hfx hlx), Action.bind_of_pure (ihy hfy hly)]
    funext s
    exact mkSeq_returned.2 ⟨rfl, (only_of_mapLeaves hfx).joins (only_of_mapLeaves hfy), rfl⟩
  | alt x y ihx ihy =>
    obtain ⟨hfx, hfy⟩ := List.forall_mem_append.1 hf
    obtain ⟨hlx, hly⟩ := List.forall_mem_append.1 hl
    rw [build, Action.bind_of_pure (ihx hfx hlx), Action.bind_of_pure (ihy hfy hly)]
    funext s
    exact mkAlt_returned.2 ⟨rfl, (only_of_mapLeaves hfx).joins (only_of_mapLeaves hfy), rfl⟩
  | many1 x ih =>
    have hx : (x.mapLeaves f).parser.declares.Only k := only_of_mapLeaves hf
    rw [build, Action.bind_of_pure (ih hf hl)]
    funext s
    exact mkMany1_returned.2 ⟨rfl, hx.joins (.inr rfl), rfl⟩
  | sepBy1 x y ihx ihy =>
    obtain ⟨hfx, hfy⟩ := List.forall_mem_append.1 hf
    obtain ⟨hlx, hly⟩ := List.forall_mem_append.1 hl
    rw [build, Action.bind_of_pure (ihx hfx hlx), Action.bind_of_pure (ihy hfy hly)]
    rfl
  | sepBy x y ihx ihy =>
    obtain ⟨hfx, hfy⟩ := List.forall_mem_append.1 hf
    obtain ⟨hlx, hly⟩ := List.forall_mem_append.1 hl
    rw [build, Action.bind_of_pure (ihx hfx hlx), Action.bind_of_pure (ihy hfy hly)]
    rfl
  | map x f ih | rewind x ih | option default x ih | many x ih | traced label x ih =>
    rw [build, Action.bind_of_pure (ih hf hl)]
    rfl

end Build

end Tree

/-! ## Conversions -/

/-- Every conversion returns an instance of its target, and changes nothing that the parsers see. -/
def ConversionsSettle (cb : Callbacks ω σ) (c : Context ω) (view : σ → τ) : Prop :=
  ∀ (e : Value ω) (t : Kind) (conv : Conversion ω), e.kindOf.isInfallible = false →
    c.registry.find? e.kindOf t = some conv → ∀ s, ∃ e' u,
      Conversion.apply cb (.kind t) e conv c s = (.returned e', u) ∧ e'.Instance t ∧ s.Alike view u

namespace Conversion

/-- From some state the error `e` is converted into `e'`. -/
def Yields (cb : Callbacks ω σ) (c : Context ω) (t : Kind) (e e' : Value ω) : Prop :=
  ∃ s u, coerce cb e (.kind t) c s = (.returned e', u)

/-- What is declared out of a fallible kind does not lead to an infallible one. -/
theorem fallible_of_settle (hc : ConversionsSettle cb c view) (s : State ω σ)
    (hS : S.isInfallible = false) (h : (c.registry.find? S T).isSome = true) :
    T.isInfallible = false := by
  obtain ⟨conv, hf⟩ := Option.isSome_iff_exists.1 h
  let e : Value ω := .object S .none .nil 0 none
  obtain ⟨_, _, -, hI, -⟩ := hc e T conv hS hf s
  exact hI.not_infallible

theorem coerce_settles (hc : ConversionsSettle cb c view)
    (h : (c.registry.find? S T).isSome = true) {e : Value ω} (he : e.Instance S) (s : State ω σ) :
    ∃ e' u, coerce cb e (.kind T) c s = (.returned e', u) ∧ (Declared.kind T).Admits e' ∧
      s.Alike view u := by
  by_cases ha : (Declared.kind T).Admits e
  · exact ⟨e, s, by rw [coerce_of_admits ha]; rfl, ha, .refl s⟩
  · -- The kind of `e` is derived from `S`, so it has inherited what is declared there.
    have hs : (c.registry.find? e.kindOf T).isSome = true :=
      Registry.find?_isSome_of_isA (.refl _) he.isA h
    obtain ⟨conv, hf⟩ := Option.isSome_iff_exists.1 hs
    obtain ⟨e', u, hr, hI, hu⟩ := hc e T conv he.fallible hf s
    exact ⟨e', u, (coerce_of_find? ha hf).trans hr, Declared.admits_kind.2 (.inr hI.isA), hu⟩

end Conversion

/-! ## Failures on the two sides -/

/-- A success, or a failure that has an error and a place. -/
inductive Outcome.Whole (a : Outcome ω) : Prop
  | success (ha : a.succeeded = .ok true)
  | failure {e pos : Value ω} (ha : a.succeeded = .ok false) (he : a.error = .ok e)
      (hp : a.pos = .ok pos)

/-- An honest parser of the kind `k`, or of none, that reads nothing but what `view` shows. -/
structure Parser.Seeing (cb : Callbacks ω σ) (c : Context ω) (view : σ → τ) (k : Kind)
    (p : Parser ω) : Prop where
  honest : ∃ l, Honest cb c p l ∧ (l = k ∨ l.isInfallible = true)
  whole : (p.run cb).Ensures c Outcome.Whole fun _ => True
  blind : (p.run cb).Blind c view

/-- The failure `a` of what declares `d`, and the same failure with its error converted into `T`. -/
inductive Outcome.Turned (cb : Callbacks ω σ) (c : Context ω) (S T : Kind) (d : Declared ω) :
    Outcome ω → Outcome ω → Prop
  | intro {a : Outcome ω} {e pos e' : Value ω} (hd : d = .kind S) (he : a.error = .ok e)
      (hp : a.pos = .ok pos) (hI : e.Instance S) (hy : Conversion.Yields cb c T e e')
      (hT : (Declared.kind T).Admits e') : Turned cb c S T d a (.err e' pos)

/-- Both failures report one error at one place, converted into `T`. -/
inductive Outcome.Retold (cb : Callbacks ω σ) (c : Context ω) (T : Kind) :
    Outcome ω → Outcome ω → Prop
  | intro {e e₁ e₂ pos : Value ω} (h₁ : Conversion.Yields cb c T e e₁)
      (h₂ : Conversion.Yields cb c T e e₂) : Retold cb c T (.err e₁ pos) (.err e₂ pos)

namespace Parser

open ParserAlgebra.Action

variable {d d' : Declared ω} {p q p' q' : Parser ω} {a b : Outcome ω}

theorem retarget_settles (hc : ConversionsSettle cb c view)
    (h : (c.registry.find? S T).isSome = true) {e pos : Value ω} (he : a.error = .ok e)
    (hp : a.pos = .ok pos) (hI : e.Instance S) (n : String) (s : State ω σ) :
    ∃ e' u, retarget cb n (.kind S) (.kind T) a c s = (.returned (.err e' pos), u) ∧
      Conversion.Yields cb c T e e' ∧ (Declared.kind T).Admits e' ∧ s.Alike view u := by
  obtain ⟨e', u, hr, hadmits, hu⟩ := Conversion.coerce_settles hc h hI s
  refine ⟨e', u, ?_, ⟨s, u, hr⟩, hadmits, hu⟩
  rw [retarget_of_fallible hI.not_infallible he, hp, bind_apply, hr]
  rfl

/-- The parser with its error converted, if it declares one. -/
def converted (T : Kind) (p : Parser ω) : Parser ω :=
  if p.declares.isInfallible then p else .convert p (.kind T)

theorem relates_leaf (hc : ConversionsSettle cb c view)
    (h : (c.registry.find? S T).isSome = true) (hp : p.Seeing cb c view S) :
    Relates c view (Outcome.Twins (Outcome.Turned cb c S T p.declares)) (p.run cb)
      ((p.converted T).run cb) := by
  obtain ⟨l, hh, hl⟩ := hp.honest
  have hd : p.declares.isInfallible = l.isInfallible := by rw [hh.declares]; rfl
  unfold converted
  rcases hi : l.isInfallible with _ | _
  · obtain rfl : l = S := hl.resolve_right (by simp [hi])
    rw [if_neg (by simp [hd, hi]), run, ← bind_pure (p.run cb), bind_assoc]
    refine .bind hp.blind.returning ?_
    rintro a _ ⟨rfl, s₀, t₀, h₀⟩
    rcases hp.whole.returned h₀ with ha | ⟨ha, he, hpos⟩
    · simp only [pure_bind, ha, monadLift_ok, if_true]
      exact .pure (.success ha)
    · have hI := hh.ensures.returned h₀ ha _ he
      simp only [pure_bind, ha, monadLift_ok, Bool.false_eq_true, if_false, hh.declares]
      intro s t hst
      obtain ⟨e', u, hr, hy, hadmits, hu⟩ := retarget_settles hc h he hpos hI p.name t
      rw [hr]
      exact ⟨.returned (.failure ha rfl ⟨rfl, he, hpos, hI, hy, hadmits⟩), hst.trans hu⟩
  · rw [if_pos (by simp [hd, hi])]
    refine hp.blind.returning.mono ?_
    rintro a _ ⟨rfl, s₀, t₀, h₀⟩
    rcases hp.whole.returned h₀ with ha | ⟨ha, he, -⟩
    · exact .success ha
    · exact absurd (hh.ensures.returned h₀ ha _ he).not_infallible (by simp [hi])

end Parser

/-! ## Trees -/

/-- What is declared on the two sides: the kinds `S` and `T`, or no error. -/
def Declared.Facing (S T : Kind) (d d' : Declared ω) : Prop :=
  d = .kind S ∧ d' = .kind T ∧ S.isInfallible = false ∨
    d.isInfallible = true ∧ d'.isInfallible = true

namespace Declared.Facing

variable {d d' e e' : Declared ω}

omit [HostObject ω] in
theorem target (hS : S.isInfallible = false) (h : d.Facing S T d') (hd : d = .kind S) :
    d' = .kind T := by
  rcases h with h | h
  · exact h.2.1
  · simp [hd, isInfallible, hS] at h

omit [HostObject ω] in
theorem joined_left (hS : S.isInfallible = false) (hd : d = .kind S) :
    Registry.joined d e = .kind S := by
  simp [Registry.joined, hd, isInfallible, hS]

omit [HostObject ω] in
theorem joined_right (h : d.Facing S T d') (hS : S.isInfallible = false) (he : e = .kind S) :
    Registry.joined d e = .kind S := by
  rcases h with ⟨hd, -⟩ | ⟨hd, -⟩
  · exact joined_left hS hd
  · simp [Registry.joined, hd, he]

omit [HostObject ω] in
theorem joined (hT : S.isInfallible = false → T.isInfallible = false) (h : d.Facing S T d')
    (h' : e.Facing S T e') : (Registry.joined d e).Facing S T (Registry.joined d' e') := by
  rcases h with ⟨rfl, rfl, hS⟩ | ⟨hd, hd'⟩
  · exact .inl (by simp [Registry.joined, isInfallible, hS, hT hS])
  · simpa [Registry.joined, hd, hd'] using h'

end Declared.Facing

/-- Under one kind of error nothing is converted any more. -/
theorem Parser.relates_retarget (hT : S.isInfallible = false → T.isInfallible = false)
    {d d' t t' : Declared ω} (hd : d.Facing S T d') (ht : t.Facing S T t')
    (hdt : S.isInfallible = false → d = .kind S → t = .kind S) {n n' : String}
    {a b : Outcome ω} (h : Outcome.Turned cb c S T d a b) :
    Action.Relates c view (Outcome.Twins (Outcome.Turned cb c S T t))
      (retarget cb n d t a) (retarget cb n' d' t' b) := by
  obtain ⟨hdS, he, hp, hI, hy, hadmits⟩ := h
  have hS : S.isInfallible = false := hI.not_infallible
  have htS : t = .kind S := hdt hS hdS
  rw [hd.target hS hdS, ht.target hS htS, htS, hdS, retarget_of_fallible hS he,
    retarget_of_fallible (hT hS) (Outcome.error_err _ _),
    Conversion.coerce_of_admits (Declared.admits_kind.2 (.inr hI.isA)),
    Conversion.coerce_of_admits hadmits, hp]
  exact .pure (.failure rfl rfl ⟨rfl, rfl, rfl, hI, hy, hadmits⟩)

namespace Tree

open ParserAlgebra.Parser ParserAlgebra.Action

variable {x y : Tree ω}

def converted (T : Kind) (x : Tree ω) : Tree ω := x.mapLeaves (Parser.converted T)

theorem facing (hT : S.isInfallible = false → T.isInfallible = false) {x : Tree ω}
    (hl : ∀ p ∈ x.leaves, p.declares.Only S) :
    x.parser.declares.Facing S T (x.converted T).parser.declares := by
  induction x with
  | leaf p =>
    have hp : p.declares.Only S := hl p (List.mem_singleton_self p)
    change p.declares.Facing S T (p.converted T).declares
    unfold Parser.converted
    split
    · next hi => exact .inr ⟨hi, hi⟩
    · next hi =>
      have hd : p.declares = .kind S := hp.resolve_right hi
      exact .inl ⟨hd, rfl, by simpa [hd, Declared.isInfallible] using hi⟩
  | seq x y ihx ihy =>
    obtain ⟨hlx, hly⟩ := List.forall_mem_append.1 hl
    exact (ihx hlx).joined hT (ihy hly)
  | alt x y ihx ihy =>
    obtain ⟨hlx, hly⟩ := List.forall_mem_append.1 hl
    exact (ihx hlx).joined hT (ihy hly)
  | many1 x ih => exact (ih hl).joined hT (.inr ⟨rfl, rfl⟩)
  | sepBy1 x y ih _ => exact ih (List.forall_mem_append.1 hl).1
  | map x f ih => exact ih hl
  | rewind x ih => exact ih hl
  | traced label x ih => exact ih hl
  | option default x => exact .inr ⟨rfl, rfl⟩
  | many x => exact .inr ⟨rfl, rfl⟩
  | sepBy x y => exact .inr ⟨rfl, rfl⟩

/-- What the leaves of a tree and the functions in it are like. -/
structure Seeing (cb : Callbacks ω σ) (c : Context ω) (view : σ → τ) (S : Kind) (x : Tree ω) :
    Prop where
  leaves : ∀ p ∈ x.leaves, p.Seeing cb c view S
  functions : ∀ f ∈ x.functions, ∀ v, Blind c view (cb.call f v)

namespace Seeing

theorem parts (h : Seeing cb c view S (seq x y)) :
    Seeing cb c view S x ∧ Seeing cb c view S y := by
  obtain ⟨hlx, hly⟩ := List.forall_mem_append.1 h.leaves
  obtain ⟨hfx, hfy⟩ := List.forall_mem_append.1 h.functions
  exact ⟨⟨hlx, hfx⟩, hly, hfy⟩

theorem only (hx : Seeing cb c view S x) : ∀ p ∈ x.leaves, p.declares.Only S := by
  intro p hp
  obtain ⟨l, hh, rfl | hl⟩ := (hx.leaves p hp).honest
  · exact .inl hh.declares
  · exact .inr (by rw [hh.declares]; exact hl)

theorem facing (h : Seeing cb c view S x)
    (hT : S.isInfallible = false → T.isInfallible = false) :
    x.parser.declares.Facing S T (x.converted T).parser.declares :=
  Tree.facing hT h.only

end Seeing

/-- The two sides fail together, with an error of the kind `S` on the one and what it is converted
into on the other. -/
theorem relates_converted (hc : ConversionsSettle cb c view)
    (hT : S.isInfallible = false → T.isInfallible = false)
    (h : (c.registry.find? S T).isSome = true) {x : Tree ω} (hx : Seeing cb c view S x) :
    Relates c view (Outcome.Twins (Outcome.Turned cb c S T x.parser.declares))
      (x.parser.run cb) ((x.converted T).parser.run cb) := by
  induction x with
  | leaf p => exact relates_leaf hc h (hx.leaves p (List.mem_singleton_self p))
  | seq x y ihx ihy =>
    obtain ⟨hx', hy'⟩ := hx.parts
    have hd := hx.facing hT
    have hdx := hx'.facing hT
    have hdy := hy'.facing hT
    refine relates_seq (ihx hx') (ihy hy') (fun a b hab => ?_) fun a b hab => ?_
    · exact relates_retarget hT hdx hd Declared.Facing.joined_left hab
    · exact relates_retarget hT hdy hd hdx.joined_right hab
  | alt x y ihx ihy =>
    obtain ⟨hx', hy'⟩ := Seeing.parts ⟨hx.leaves, hx.functions⟩
    have hd := hx.facing hT
    have hdx := hx'.facing hT
    have hdy := hy'.facing hT
    -- The first failure is dropped on both sides, only the second one is reported.
    refine relates_alt (ihx hx') (ihy hy') fun a b hab => ?_
    exact relates_retarget hT hdy hd hdx.joined_right hab
  | map x f ih =>
    have hf : ∀ g ∈ x.functions, g ∈ (map x f).functions := by
      intro g hg
      cases f with
      | function f => exact List.mem_cons_of_mem f hg
      | _ => exact hg
    refine relates_map (ih ⟨hx.leaves, fun g hg => hx.functions g (hf g hg)⟩) ?_
    refine blind_apply ?_
    rintro g rfl
    exact hx.functions g (List.mem_cons_self ..)
  | rewind x ih => exact relates_rewind (ih ⟨hx.leaves, hx.functions⟩)
  | many1 x ih =>
    have hx' : Seeing cb c view S x := ⟨hx.leaves, hx.functions⟩
    have hmany : Relates c view (Outcome.Twins fun _ _ => False) (x.parser.many.run cb)
        ((x.converted T).parser.many.run cb) := relates_many (ih hx')
    refine relates_map (relates_seq (ih hx') hmany (fun a b hab => ?_) fun _ _ hab => hab.elim) ?_
    · exact relates_retarget hT (hx'.facing hT) (hx.facing hT)
        Declared.Facing.joined_left hab
    · exact blind_apply fun _ hcons => nomatch hcons
  | sepBy1 x y ihx ihy =>
    obtain ⟨hx', hy'⟩ := Seeing.parts ⟨hx.leaves, hx.functions⟩
    exact relates_sepBy1 (ihx hx') (ihy hy')
  | option default x ih => exact relates_option (ih ⟨hx.leaves, hx.functions⟩)
  | many x ih => exact relates_many (ih ⟨hx.leaves, hx.functions⟩)
  | sepBy x y ihx ihy =>
    obtain ⟨hx', hy'⟩ := Seeing.parts ⟨hx.leaves, hx.functions⟩
    exact relates_sepBy (ihx hx') (ihy hy')
  | traced label x ih =>
    -- What is written differs on the two sides, and may be written on one of them only.
    refine relates_traced (ih ⟨hx.leaves, hx.functions⟩) fun a b hab => ?_
    obtain ⟨-, he, -, -, -, -⟩ := hab
    exact ⟨_, _, he, rfl⟩

theorem build_pure (hx : ∀ p ∈ x.leaves, p.declares.Only k) :
    x.build Pure.pure c = (Pure.pure x.parser : Action ω σ (Parser ω)) c := by
  have hid : x.build Pure.pure c = (Pure.pure (x.mapLeaves id).parser : Action ω σ (Parser ω)) c :=
    build_returned _ hx fun _ _ => rfl
  rwa [mapLeaves_id] at hid

theorem build_converted (h : (c.registry.find? S T).isSome = true)
    (hx : ∀ p ∈ x.leaves, p.declares.Only S) :
    x.build (fun p => if p.declares.isInfallible then return p else mkConvert p (.kind T)) c =
      (Pure.pure (x.converted T).parser : Action ω σ (Parser ω)) c := by
  refine build_returned (k := T) _ (fun p _ => ?_) fun p hp => ?_
  · unfold Parser.converted
    split
    · next hi => exact .inr hi
    · exact .inl rfl
  · unfold Parser.converted
    split
    · rfl
    · funext s
      exact mkConvert_returned.2 ⟨rfl, .inr ((hx p hp).canConvert h), rfl⟩

/-- What a tree and its error come to be, converted at the root and at the leaves. -/
structure Distributes (cb : Callbacks ω σ) (c : Context ω) (view : σ → τ) (T : Kind) (x : Tree ω) :
    Prop where
  root : ∀ s : State ω σ, (do mkConvert (← x.build Pure.pure) (.kind T) : Action ω σ (Parser ω)) c s =
    (.returned (.convert x.parser (.kind T)), s)
  leaves : ∀ s : State ω σ, x.build (fun p => if p.declares.isInfallible then return p
    else mkConvert p (.kind T)) c s = (.returned (x.converted T).parser, s)
  runs : Relates c view (Outcome.Twins (Outcome.Retold cb c T))
    ((Parser.convert x.parser (.kind T)).run cb) ((x.converted T).parser.run cb)
  /-- If an error is converted into one other only, the outcomes are the same. -/
  same : (∀ e e₁ e₂, Conversion.Yields cb c T e e₁ → Conversion.Yields cb c T e e₂ → e₁ = e₂) →
    Relates c view Eq ((Parser.convert x.parser (.kind T)).run cb) ((x.converted T).parser.run cb)

theorem Seeing.runs (hc : ConversionsSettle cb c view)
    (hT : S.isInfallible = false → T.isInfallible = false) (h : (c.registry.find? S T).isSome = true)
    (hx : Seeing cb c view S x) :
    Relates c view (Outcome.Twins (Outcome.Retold cb c T))
      ((Parser.convert x.parser (.kind T)).run cb) ((x.converted T).parser.run cb) := by
  rw [run, ← bind_pure ((x.converted T).parser.run cb)]
  refine .bind (relates_converted hc hT h hx) fun a b hab => ?_
  cases hab with
  | success ha =>
    simp only [ha, monadLift_ok, pure_bind, if_true]
    exact .pure (.success ha)
  | failure ha hb hturned =>
    obtain ⟨hd, he, hpos, hI, hy, -⟩ := hturned
    simp only [ha, monadLift_ok, pure_bind, Bool.false_eq_true, if_false, hd]
    intro s t hst
    obtain ⟨e', u, hr, hy', -, hu⟩ := retarget_settles hc h he hpos hI x.parser.name s
    rw [hr]
    exact ⟨.returned (.failure rfl rfl ⟨hy', hy⟩), hu.symm.trans hst⟩

end Tree

/-! ## Alternatives of literals -/

namespace Parser

open ParserAlgebra.Action

theorem seeing_take (literal : String) : (take literal).Seeing cb c view .takeError := by
  refine ⟨⟨_, honest_take literal, .inl rfl⟩, ?_, ?_⟩ <;> rw [run]
  · refine .bind .cursor fun d _ => ?_
    dsimp only
    split
    · exact .bind (.setCursor _) fun _ _ => .pure (.success rfl)
    · exact .pure (.failure rfl rfl rfl)
  · refine .after .cursor fun d => ?_
    dsimp only
    split
    · exact .after .setCursor fun _ => .pure rfl
    · exact .pure rfl

theorem seeing_whitespace : whitespace.Seeing cb c view k := by
  refine ⟨⟨_, honest_whitespace, .inr (by decide)⟩, ?_, ?_⟩ <;> rw [run]
  · exact .bind (ensures_skipRun _) fun n _ => .pure (.success rfl)
  · refine .after ?_ fun n => .pure rfl
    refine .after .cursor fun d => ?_
    dsimp only
    split
    · exact .after .setCursor fun _ => .pure rfl
    · exact .pure rfl

end Parser

theorem Assignment.conversionsSettle {rounds depth : Nat} {settings : Settings Function}
    {threshold : Level} {view : Unit → τ} :
    ConversionsSettle (host.callbacks rounds depth) ⟨registry, settings, threshold⟩ view := by
  intro e t conv _ hf s
  obtain ⟨rfl, rfl⟩ := find?_registry hf
  obtain ⟨v, hv, hI⟩ := wrap_failed e
  refine ⟨v, s, ?_, hI, .refl s⟩
  rw [Conversion.apply, hv]
  rfl

end ParserAlgebra
