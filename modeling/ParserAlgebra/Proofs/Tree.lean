import ParserAlgebra.Proofs.Building
import ParserAlgebra.Proofs.Failing
import ParserAlgebra.Proofs.Truthful
import ParserAlgebra.Proofs.Unions

/-!
# Trees of parsers

However deep parsers are nested, the failure that is reported in the end is that of one leaf
(`Tree.Fails`). If all that is joined on the way is joined under one kind, the error of the leaf is
converted into that kind once, by the first combinator that it reaches, and handed on by the others;
its place is never changed (`Tree.reported_once`). So a union wraps what the leaf reported, and not
what another combinator has wrapped already.
-/

namespace ParserAlgebra

variable {ω σ : Type}

/-- Parsers that are put together over leaves, which may be any parsers. -/
inductive Tree (ω : Type) where
  | leaf (p : Parser ω)
  | seq (x y : Tree ω)
  | alt (x y : Tree ω)
  | map (x : Tree ω) (f : Mapping ω)
  | rewind (x : Tree ω)
  | many1 (x : Tree ω)
  | sepBy1 (x sep : Tree ω)
  | option (default : Value ω) (x : Tree ω)
  | many (x : Tree ω)
  | sepBy (x sep : Tree ω)
  | traced (label : String) (x : Tree ω)

namespace Tree

def parser : Tree ω → Parser ω
  | leaf p => p
  | seq x y => .seq x.parser y.parser
  | alt x y => .alt x.parser y.parser
  | map x f => .map x.parser f
  | rewind x => .rewind x.parser
  | many1 x => .map (.seq x.parser (.many x.parser)) .cons
  | sepBy1 x sep => .sepBy1 x.parser sep.parser
  | option default x => .option default x.parser
  | many x => .many x.parser
  | sepBy x sep => .sepBy x.parser sep.parser
  | traced label x => .traced label x.parser

def after (x y : Tree ω) : Tree ω := map (seq x y) .first

def before (x y : Tree ω) : Tree ω := map (seq x y) .second

def choice (x : Tree ω) (ys : List (Tree ω)) : Tree ω := ys.foldl alt x

theorem parser_choice (x : Tree ω) (ys : List (Tree ω)) :
    (choice x ys).parser = (ys.map parser).foldl .alt x.parser := by
  unfold choice
  induction ys generalizing x with
  | nil => rfl
  | cons y ys ih => exact ih (alt x y)

def leaves : Tree ω → List (Parser ω)
  | leaf p => [p]
  | seq x y | alt x y | sepBy1 x y | sepBy x y => x.leaves ++ y.leaves
  | map x _ | rewind x | many1 x | option _ x | many x | traced _ x => x.leaves

/-- The sequences and the alternatives. -/
def nodes : Tree ω → List (Parser ω)
  | leaf _ => []
  | seq x y => .seq x.parser y.parser :: (x.nodes ++ y.nodes)
  | alt x y => .alt x.parser y.parser :: (x.nodes ++ y.nodes)
  | sepBy1 x y | sepBy x y => x.nodes ++ y.nodes
  | map x _ | rewind x | many1 x | option _ x | many x | traced _ x => x.nodes

end Tree

variable [HostObject ω] {cb : Callbacks ω σ} {c : Context ω} {s t u v : State ω σ}
  {a b : Outcome ω} {k : Kind} {through : Prop}

/-- The error of a failure, if it has one, is what `d` declares. -/
def Outcome.Within (d : Declared ω) (res : Outcome ω) : Prop :=
  res.succeeded = .ok false → ∀ e, res.error = .ok e → d.Admits e

/-- It fails only with what it declares. -/
def Parser.Candid (cb : Callbacks ω σ) (c : Context ω) (p : Parser ω) : Prop :=
  (p.run cb).Ensures c (Outcome.Within p.declares) fun _ => True

theorem Outcome.within_of_succeeded {d : Declared ω} (res : Outcome ω)
    (h : res.succeeded = .ok true) : res.Within d := fun h' => by simp [h] at h'

theorem Parser.retarget_within {d : Declared ω} (hc : AimsAt cb c d) (name : String)
    (source : Declared ω) (res : Outcome ω) :
    (retarget cb name source d res).Ensures c (Outcome.Within d) fun _ => True := by
  refine ⟨fun h => ?_, fun _ => trivial⟩
  obtain ⟨_, e, pos, e', -, -, -, -, he, rfl⟩ := retarget_returned h
  rintro - _ hx
  obtain rfl := Except.ok.inj hx
  exact (coerce_admits hc e).returned he

namespace Tree

open ParserAlgebra.Parser

section Build

variable {x y : Tree ω} {p : Parser ω}

theorem parser_of_mkAfter (h : mkAfter x.parser y.parser c s = (.returned p, t)) :
    p = (after x y).parser := (mkAfter_returned.1 h).1

theorem parser_of_mkBefore (h : mkBefore x.parser y.parser c s = (.returned p, t)) :
    p = (before x y).parser := (mkBefore_returned.1 h).1

theorem parser_of_mkMany1 (h : mkMany1 x.parser c s = (.returned p, t)) :
    p = (many1 x).parser := (mkMany1_returned.1 h).1

theorem parser_of_mkChoice {ys : List (Tree ω)}
    (h : mkChoice ((x :: ys).map fun y => .parser y.parser) c s = (.returned p, t)) :
    p = (choice x ys).parser := by
  obtain ⟨q, ps, hq, hps, -, rfl, -⟩ := mkChoice_returned.1 h
  have hys : Adapted (ys.map fun y => .parser y.parser) (ys.map parser) := by
    rw [Adapted, List.forall₂_map_left_iff, List.forall₂_map_right_iff, List.forall₂_same]
    exact fun _ _ => rfl
  rw [parser_choice, hps.unique hys, ← Except.ok.inj hq]

end Build

/-- What is put together over candid leaves is candid. -/
theorem candid (hc : ConversionsAim cb c) (x : Tree ω) (hl : ∀ p ∈ x.leaves, p.Candid cb c) :
    x.parser.Candid cb c := by
  have hok {d : Declared ω} (res : Outcome ω) : res.succeeded = .ok true → res.Within d :=
    res.within_of_succeeded
  have haim (d : Declared ω) : AimsAt cb c d := fun e => hc e d
  induction x with
  | leaf p => exact hl p (List.mem_singleton_self p)
  | seq x y =>
    exact ensures_seq lenient_any hok (.any _) (.any _) (fun _ _ _ => retarget_within (haim _) ..)
      fun _ _ _ => retarget_within (haim _) ..
  | alt x y =>
    exact ensures_alt lenient_any hok (.any _) (.any _) fun _ _ _ => retarget_within (haim _) ..
  | map x f ih => exact ensures_map lenient_any hok (ih hl) (fun _ => .any _) fun _ h _ => h
  | rewind x ih => exact ensures_rewind lenient_any hok (ih hl) fun _ h _ => h
  | many1 x ih =>
    refine ensures_map lenient_any hok (A := Outcome.Within _) ?_ (fun _ => .any _) fun _ h _ => h
    exact ensures_seq lenient_any hok (.any _) (.any _) (fun _ _ _ => retarget_within (haim _) ..)
      fun _ _ _ => retarget_within (haim _) ..
  | sepBy1 x y ih _ =>
    obtain ⟨hlx, -⟩ := List.forall_mem_append.1 hl
    exact ensures_sepBy1 lenient_any hok (fun _ => trivial) (ih hlx) (.any _) fun _ h _ => h
  | option default x => exact ensures_option lenient_any hok (.any _)
  | many x => exact ensures_many lenient_any hok (fun _ => trivial) (.any _)
  | sepBy x y => exact ensures_sepBy lenient_any hok (fun _ => trivial) (.any _) (.any _)
  | traced label x ih => exact ensures_traced lenient_any hok (ih hl) fun _ h _ => h

/-- From `s` the tree fails because a leaf does, which reported `b` and left the state `v`. Whether
the failure comes through a sequence or an alternative is `through`; the sequence inside of `many1`
is one of them if it declares the kind `k`. -/
inductive Fails (cb : Callbacks ω σ) (c : Context ω) (k : Kind) :
    Tree ω → State ω σ → Prop → Outcome ω → State ω σ → Prop
  | leaf {p s b v} (h : p.run cb c s = (.returned b, v)) (hb : b.succeeded = .ok false) :
      Fails cb c k (leaf p) s False b v
  | seqFirst {x y s through b v} (h : Fails cb c k x s through b v) :
      Fails cb c k (seq x y) s True b v
  | seqSecond {x y s d r through b v} (hx : x.parser.run cb c s = (.returned d, r))
      (hd : d.succeeded = .ok true) (h : Fails cb c k y r through b v) :
      Fails cb c k (seq x y) s True b v
  | alt {x y s d r through b v} (hx : x.parser.run cb c s = (.returned d, r))
      (hd : d.succeeded = .ok false) (h : Fails cb c k y (r.backTo s.cursor.toMark) through b v) :
      Fails cb c k (alt x y) s True b v
  | map {x f s through b v} (h : Fails cb c k x s through b v) :
      Fails cb c k (map x f) s through b v
  | rewind {x s through b v} (h : Fails cb c k x s through b v) :
      Fails cb c k (rewind x) s through b v
  | many1 {x s through b v} (h : Fails cb c k x s through b v) :
      Fails cb c k (many1 x) s (through ∨ x.parser.declares = .kind k) b v
  | sepBy1 {x y s through b v} (h : Fails cb c k x s through b v) :
      Fails cb c k (sepBy1 x y) s through b v
  | traced {label x s r through b v} (hr : runTrace label c s = (.returned (), r))
      (h : Fails cb c k x r through b v) : Fails cb c k (traced label x) s through b v

/-- What became of the failure `b` of a leaf, which left the state `v`, when `a` is returned in the
state `u`. -/
structure Conveyed (cb : Callbacks ω σ) (c : Context ω) (k : Kind) (through : Prop)
    (b : Outcome ω) (v : State ω σ) (a : Outcome ω) (u : State ω σ) : Prop where
  asIs : ¬ through → a.error = b.error ∧ a.pos = b.pos ∧ u.own = v.own
  /-- But for the one conversion nothing was done to the state of the host program. -/
  once : through → ∃ e pos e' v' u', b.error = .ok e ∧ b.pos = .ok pos ∧ a = .err e' pos ∧
    Conversion.coerce cb e (.kind k) c v' = (.returned e', u') ∧ v'.own = v.own ∧ u.own = u'.own

theorem Conveyed.of_own (h : Conveyed cb c k through b v a t) (hu : u.own = t.own) :
    Conveyed cb c k through b v a u where
  asIs hn := by
    obtain ⟨he, hp, ho⟩ := h.asIs hn
    exact ⟨he, hp, hu.trans ho⟩
  once ht := by
    obtain ⟨e, pos, e', v', u', he, hp, ha, hc, hv, ho⟩ := h.once ht
    exact ⟨e, pos, e', v', u', he, hp, ha, hc, hv, hu.trans ho⟩

/-- What was converted before is not converted again. -/
theorem Conveyed.retarget {name : String} {source : Declared ω} (hc : AimsAt cb c (.kind k))
    (h : Conveyed cb c k through b v a t) {r : State ω σ} (hr : r.own = t.own) {a' : Outcome ω}
    (hrun : Parser.retarget cb name source (.kind k) a c r = (.returned a', u)) :
    Conveyed cb c k True b v a' u := by
  obtain ⟨_, e, pos, e', -, -, he, hp, hcoerce, rfl⟩ := retarget_returned hrun
  refine ⟨fun hn => absurd trivial hn, fun _ => ?_⟩
  by_cases ht : through
  · obtain ⟨e₀, pos₀, e₁, v', u', he₀, hp₀, rfl, hc₀, hv, ho⟩ := h.once ht
    obtain rfl : e₁ = e := Except.ok.inj he
    obtain rfl : pos₀ = pos := Except.ok.inj hp
    -- What the conversion returned is of the kind `k`, and such an error is left as it is.
    rw [Conversion.coerce_of_admits ((coerce_admits hc e₀).returned hc₀)] at hcoerce
    obtain ⟨rfl, rfl⟩ := by simpa using hcoerce
    exact ⟨e₀, pos₀, _, v', u', he₀, hp₀, rfl, hc₀, hv, hr.trans ho⟩
  · obtain ⟨hbe, hbp, ho⟩ := h.asIs ht
    exact ⟨e, pos, e', r, u, hbe.symm.trans he, hbp.symm.trans hp, rfl, hcoerce, hr.trans ho, rfl⟩

theorem Conveyed.rebuilt {e pos : Value ω} (h : Conveyed cb c k through b v a t)
    (he : a.error = .ok e) (hp : a.pos = .ok pos) :
    Conveyed cb c k through b v (.err e pos) t where
  asIs hn := by
    obtain ⟨hbe, hbp, ho⟩ := h.asIs hn
    exact ⟨he.symm.trans hbe, hp.symm.trans hbp, ho⟩
  once ht := by
    obtain ⟨e₀, pos₀, e₁, v', u', he₀, hp₀, rfl, hc, hv, ho⟩ := h.once ht
    obtain rfl : e₁ = e := Except.ok.inj he
    obtain rfl : pos₀ = pos := Except.ok.inj hp
    exact ⟨e₀, pos₀, e₁, v', u', he₀, hp₀, rfl, hc, hv, ho⟩

/-- The sequence inside of `many1` converts the errors of a parser into what it declares itself. -/
theorem Conveyed.many1 {p : Parser ω} {name : String} (hc : AimsAt cb c (.kind k))
    (h : Conveyed cb c k through b v a t) (hp : p.Candid cb c)
    (hrun : p.run cb c s = (.returned a, t)) (ha : a.succeeded = .ok false) {a' : Outcome ω}
    (hr : Parser.retarget cb name p.declares (Parser.seq p (.many p)).declares a c t =
      (.returned a', u)) :
    Conveyed cb c k (through ∨ p.declares = .kind k) b v a' u := by
  have htarget : (Parser.seq p (.many p)).declares = p.declares := by
    obtain ⟨l, -, -, -, hl, hi, -⟩ := retarget_returned hr
    simp [declares, Registry.joined, hl, Declared.isInfallible, hi]
  rw [htarget] at hr
  by_cases hk : p.declares = .kind k
  · rw [hk] at hr
    have hthrough : (through ∨ p.declares = .kind k) = True := eq_true (.inr hk)
    rw [hthrough]
    exact h.retarget hc rfl hr
  · have hthrough : (through ∨ p.declares = .kind k) = through := by simp [hk]
    rw [hthrough]
    -- The parser is candid, so its error is of the other kind already.
    obtain ⟨-, e, pos, e', -, -, he, hpos, hcoerce, rfl⟩ := retarget_returned hr
    rw [Conversion.coerce_of_admits (hp.returned hrun ha e he)] at hcoerce
    obtain ⟨rfl, rfl⟩ := by simpa using hcoerce
    exact h.rebuilt he hpos

omit [HostObject ω] in
theorem isInfallible_joined {d e : Declared ω} :
    (Registry.joined d e).isInfallible = true ↔ d.isInfallible = true ∧ e.isInfallible = true := by
  unfold Registry.joined
  split
  · next hd => simp [hd]
  · next hd => simp [hd]

theorem target_of_returned {name : String} {source target : Declared ω}
    (hd : target = .kind k ∨ target.isInfallible = true)
    (hs : target.isInfallible = true → source.isInfallible = true)
    (h : Parser.retarget cb name source target b c t = (.returned a, u)) : target = .kind k := by
  -- A failure of what is declared infallible is raised, and here one was returned.
  refine hd.resolve_right fun hi => ?_
  obtain ⟨l, -, -, -, rfl, hl, -⟩ := retarget_returned h
  exact absurd (hs hi) (by simp [Declared.isInfallible, hl])

/-- The failure of a tree is that of a leaf, and what the leaf reported was converted at most
once. -/
theorem conveyed (hc : ConversionsAim cb c) (x : Tree ω) (hl : ∀ p ∈ x.leaves, p.Candid cb c)
    (hn : ∀ n ∈ x.nodes, n.declares = .kind k ∨ n.declares.isInfallible = true)
    (h : x.parser.run cb c s = (.returned a, u)) (ha : a.succeeded = .ok false) :
    ∃ through b v, x.Fails cb c k s through b v ∧ Conveyed cb c k through b v a u := by
  have haim : AimsAt cb c (.kind k) := fun e => hc e _
  induction x generalizing s a u with
  | leaf p => exact ⟨False, a, u, .leaf h ha, fun _ => ⟨rfl, rfl, rfl⟩, False.elim⟩
  | seq x y ihx ihy =>
    obtain ⟨hlx, hly⟩ := List.forall_mem_append.1 hl
    obtain ⟨hnode, hn⟩ := List.forall_mem_cons.1 hn
    obtain ⟨hnx, hny⟩ := List.forall_mem_append.1 hn
    rcases failure_of_seq ha h with ⟨b, t, hx, hb, hr⟩ | ⟨d, r, b, t, hx, hd, hy, hb, hr⟩
    · obtain ⟨through, b', v, hf, hcon⟩ := ihx hlx hnx hx hb
      have hk := target_of_returned hnode (fun hi => (isInfallible_joined.1 hi).1) hr
      rw [hk] at hr
      exact ⟨True, b', v, .seqFirst hf, hcon.retarget haim rfl hr⟩
    · obtain ⟨through, b', v, hf, hcon⟩ := ihy hly hny hy hb
      have hk := target_of_returned hnode (fun hi => (isInfallible_joined.1 hi).2) hr
      rw [hk] at hr
      exact ⟨True, b', v, .seqSecond hx hd hf, hcon.retarget haim rfl hr⟩
  | alt x y _ ihy =>
    obtain ⟨-, hly⟩ := List.forall_mem_append.1 hl
    obtain ⟨hnode, hn⟩ := List.forall_mem_cons.1 hn
    obtain ⟨-, hny⟩ := List.forall_mem_append.1 hn
    obtain ⟨d, r, b, t, hx, hd, hy, hb, hr⟩ := failure_of_alt ha h
    obtain ⟨through, b', v, hf, hcon⟩ := ihy hly hny hy hb
    have hk := target_of_returned hnode (fun hi => (isInfallible_joined.1 hi).2) hr
    rw [hk] at hr
    exact ⟨True, b', v, .alt hx hd hf, hcon.retarget haim (State.backTo_own ..) hr⟩
  | map x f ih =>
    obtain ⟨through, b, v, hf, hcon⟩ := ih hl hn (failure_of_map ha h) ha
    exact ⟨through, b, v, .map hf, hcon⟩
  | rewind x ih =>
    obtain ⟨t, hx, rfl⟩ := failure_of_rewind ha h
    obtain ⟨through, b, v, hf, hcon⟩ := ih hl hn hx ha
    exact ⟨through, b, v, .rewind hf, hcon.of_own (State.backTo_own ..)⟩
  | many1 x ih =>
    rcases failure_of_seq ha (failure_of_map ha h) with
      ⟨b, t, hx, hb, hr⟩ | ⟨_, _, _, _, -, -, hy, hb, -⟩
    · obtain ⟨through, b', v, hf, hcon⟩ := ih hl hn hx hb
      exact ⟨_, b', v, .many1 hf, hcon.many1 haim (x.candid hc hl) hx hb hr⟩
    · exact absurd hy (no_failure_of_many hb)
  | sepBy1 x y ih _ =>
    obtain ⟨hlx, -⟩ := List.forall_mem_append.1 hl
    obtain ⟨hnx, -⟩ := List.forall_mem_append.1 hn
    obtain ⟨through, b, v, hf, hcon⟩ := ih hlx hnx (failure_of_sepBy1 ha h) ha
    exact ⟨through, b, v, .sepBy1 hf, hcon⟩
  | option default x => exact absurd h (no_failure_of_option ha)
  | many x => exact absurd h (no_failure_of_many ha)
  | sepBy x y => exact absurd h (no_failure_of_sepBy ha)
  | traced label x ih =>
    obtain ⟨r, t, hr, hx, -, ho⟩ := failure_of_traced ha h
    obtain ⟨through, b, v, hf, hcon⟩ := ih hl hn hx ha
    exact ⟨through, b, v, .traced hr hf, hcon.of_own ho⟩

/-- The failure `a` that is returned, and the failure `b` of a leaf. -/
structure Reported (cb : Callbacks ω σ) (c : Context ω) (k : Kind) (through : Prop)
    (b : Outcome ω) (v : State ω σ) (a : Outcome ω) (u : State ω σ) : Prop
    extends Conveyed cb c k through b v a u where
  kept : through → ∀ e, b.error = .ok e → (Declared.kind k).Admits e →
    a.error = .ok e ∧ u.own = v.own
  /-- What is absorbed is the leaf's own error, and that is the cause of a union. -/
  absorbed : through → ∀ e, b.error = .ok e → ¬ (Declared.kind k).Admits e →
    c.registry.find? e.kindOf k = some .wrapping →
      ∃ w pos, a = .err w pos ∧ Conversion.wrap k e = .ok w ∧
        (k.IsUnion → w.kindOf = k ∧ w.get .cause = .ok e)

end Tree

theorem Parser.Honest.candid {p : Parser ω} (h : Honest cb c p k) : p.Candid cb c := by
  refine h.ensures.mono (fun res hres hfailed e he => ?_) fun _ _ => trivial
  rw [h.declares]
  exact Declared.admits_kind.2 (.inr (hres hfailed e he).isA)

end ParserAlgebra
