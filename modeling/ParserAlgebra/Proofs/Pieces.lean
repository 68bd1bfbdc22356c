import ParserAlgebra.Proofs.Distributing
import ParserAlgebra.Proofs.Primitives

/-!
# A text in pieces

A text may be taken at once or cut into pieces that are taken one after another. The sequence of the pieces,
joined from the left, succeeds exactly where the whole text is taken, ends at the same place and hands out the
pieces of the input side by side (`Parser.run_pieces`). Where it fails, nothing is taken back: the cursor
stays behind the pieces that came, and the piece that did not come is the one that is missed.

The induction is on the pieces that are still to come, from the place where those before them end.
-/

namespace ParserAlgebra.Parser

variable {ω σ : Type}

/-- The parser, and behind it the texts one after another, joined from the left. -/
def thenTakes (p : Parser ω) (ls : List String) : Parser ω := ls.foldl (fun p l => seq p (take l)) p

def mkThenTakes [HostObject ω] (p : Parser ω) (ls : List String) : Action ω σ (Parser ω) :=
  ls.foldlM (fun p l => mkSeq p (take l)) p

/-- The values in pairs that are nested to the left. -/
def paired (v : Value ω) (vs : List (Value ω)) : Value ω := vs.foldl (fun v w => .tuple [v, w]) v

/-- The pieces of an input that are as long as the texts, side by side from the place `n` on. -/
def pieces (src : List Char) : Nat → List String → List (Value ω)
  | _, [] => []
  | n, l :: ls => .span ⟨src, n, n + l.length⟩ :: pieces src (n + l.length) ls

theorem drop_behind {src r : List Char} {n : Nat} {l : String} (h : src.drop n = l.toList ++ r) :
    src.drop (n + l.length) = r := by
  rw [← String.length_toList]
  exact Assignment.drop_of_append h

theorem isPrefix_of_join {l : String} {ls : List String} {r : List Char}
    (h : (String.join (l :: ls)).toList <+: r) : l.toList <+: r := by
  rw [String.join_cons, String.toList_append] at h
  exact (List.prefix_append ..).trans h

theorem join_cons_isPrefix {l : String} {ls : List String} {r r' : List Char} (h : r = l.toList ++ r') :
    (String.join (l :: ls)).toList <+: r ↔ (String.join ls).toList <+: r' := by
  rw [h, String.join_cons, String.toList_append, List.prefix_append_right_inj]

variable [HostObject ω] {cb : Callbacks ω σ} {c : Context ω} {s t : State ω σ} {p : Parser ω}
  {src : List Char} {n : Nat} {l : String} {ls : List String} {v : Value ω}

/-! ## Building -/

theorem declares_seq_take (hp : p.declares = .kind .takeError) :
    (seq p (take l)).declares = .kind .takeError := by
  rw [declares, hp]
  rfl

/-- The pieces join whatever conversions are registered. -/
theorem mkThenTakes_returned (hp : p.declares = .kind .takeError) :
    mkThenTakes p ls c s = (.returned (thenTakes p ls), s) := by
  induction ls generalizing p with
  | nil => rfl
  | cons l ls ih =>
    have hseq : mkSeq p (take l) c s = (.returned (seq p (take l)), s) :=
      mkSeq_returned.2 ⟨rfl, Declared.Only.joins (.inl hp) (.inl rfl), rfl⟩
    rw [mkThenTakes, List.foldlM_cons, Action.bind_apply, hseq]
    exact ih (declares_seq_take hp)

/-! ## Running -/

section Rest

variable (hp : p.declares = .kind .takeError)

include hp

/-- The failure of a piece is handed on by those behind it. -/
theorem run_thenTakes_of_failed {reason : Mismatch} {m : Mark ω}
    (h : p.run cb c s = (.returned (.failedAt (.takeError l reason) m), t)) :
    (thenTakes p ls).run cb c s = (.returned (.failedAt (.takeError l reason) m), t) := by
  induction ls generalizing p with
  | nil => exact h
  | cons x ls ih =>
    refine ih (declares_seq_take hp) ?_
    rw [run_seq_of_failed h rfl, declares_seq_take hp, hp, retarget_takeError (by decide)]

variable (hs : s.cursor.source = src) (h : p.run cb c s = (.returned (.ok v), s.placed n))

include hs h

omit hp in
theorem run_seq_take_of_append {r : List Char} (hl : src.drop n = l.toList ++ r) :
    (seq p (take l)).run cb c s =
      (.returned (.ok (.tuple [v, .span ⟨src, n, n + l.length⟩])), s.placed (n + l.length)) := by
  subst hs
  have htake : (take l).run cb c (s.placed n) = _ := run_take_of_append hl
  exact run_seq_of_both_succeeded h rfl rfl htake rfl rfl

theorem run_seq_take_of_not_isPrefix (hl : ¬ l.toList <+: src.drop n) :
    ∃ reason, (seq p (take l)).run cb c s =
      (.returned (.failedAt (.takeError l reason) { pos := n }), s.placed n) := by
  subst hs
  have htake : (take l).run cb c (s.placed n) = _ := run_take_of_not_isPrefix hl
  have hseq := run_seq_of_second_failed h rfl htake rfl
  rw [declares_seq_take hp] at hseq
  exact ⟨_, hseq.trans (retarget_takeError (by rfl) ..)⟩

theorem run_thenTakes_of_isPrefix (hls : (String.join ls).toList <+: src.drop n) :
    (thenTakes p ls).run cb c s =
      (.returned (.ok (paired v (pieces src n ls))), s.placed (n + (String.join ls).length)) := by
  induction ls generalizing p v n with
  | nil => exact h
  | cons l ls ih =>
    obtain ⟨r, hr⟩ := isPrefix_of_join hls
    rw [join_cons_isPrefix hr.symm, ← drop_behind hr.symm] at hls
    have hrest := ih (declares_seq_take hp) (run_seq_take_of_append hs h hr.symm) hls
    rw [String.join_cons, String.length_append, ← Nat.add_assoc]
    exact hrest

theorem run_thenTakes_of_not_isPrefix (hls : ¬ (String.join ls).toList <+: src.drop n) :
    ∃ done x rest reason, ls = done ++ x :: rest ∧ (String.join done).toList <+: src.drop n ∧
      ¬ x.toList <+: src.drop (n + (String.join done).length) ∧ (thenTakes p ls).run cb c s =
        (.returned (.failedAt (.takeError x reason) { pos := n + (String.join done).length }),
          s.placed (n + (String.join done).length)) := by
  induction ls generalizing p v n with
  | nil => exact absurd List.nil_prefix hls
  | cons l ls ih =>
    -- Either this piece is the one that does not come, or one of those behind it is.
    by_cases hl : l.toList <+: src.drop n
    · obtain ⟨r, hr⟩ := hl
      rw [join_cons_isPrefix hr.symm, ← drop_behind hr.symm] at hls
      obtain ⟨done, x, rest, reason, rfl, hdone, hx, hrun⟩ :=
        ih (declares_seq_take hp) (run_seq_take_of_append hs h hr.symm) hls
      rw [drop_behind hr.symm, ← join_cons_isPrefix hr.symm] at hdone
      refine ⟨l :: done, x, rest, reason, rfl, hdone, ?_⟩
      rw [String.join_cons, String.length_append, ← Nat.add_assoc]
      exact ⟨hx, hrun⟩
    · obtain ⟨reason, hfail⟩ := run_seq_take_of_not_isPrefix hp hs h hl
      exact ⟨[], l, ls, reason, rfl, List.nil_prefix, hl,
        run_thenTakes_of_failed (declares_seq_take hp) hfail⟩

end Rest

theorem adjacent_pieces (hls : (String.join ls).toList <+: src.drop n) (hn : n ≤ src.length) :
    Cursor.Adjacent src n (pieces src n ls : List (Value ω)) (n + (String.join ls).length) ∧
      List.Forall₂ (fun (v : Value ω) l => v.text? = .ok l) (pieces src n ls) ls := by
  induction ls generalizing n with
  | nil => exact ⟨.nil n, .nil⟩
  | cons l ls ih =>
    obtain ⟨r, hr⟩ := isPrefix_of_join hls
    rw [join_cons_isPrefix hr.symm, ← drop_behind hr.symm] at hls
    have hlen : n + l.length ≤ src.length := by
      have := congrArg List.length hr
      rw [List.length_append, List.length_drop, String.length_toList] at this
      omega
    obtain ⟨hrest, htexts⟩ := ih hls hlen
    have hpart : (Value.span ⟨src, n, n + l.length⟩ : Value ω).PartOf src n (n + l.length) :=
      Mark.partOf_spanTo (Mark.given_mk n) (Mark.given_mk _) (Nat.le_add_right _ _) hlen
    rw [String.join_cons, String.length_append, ← Nat.add_assoc]
    refine ⟨.cons hpart hrest, .cons ?_ htexts⟩
    rw [hpart.text, ← hr, Nat.add_sub_cancel_left, ← String.length_toList, List.take_left,
      String.ofList_toList]

omit [HostObject ω] in
theorem moves_of_isPrefix (h : l.toList <+: s.cursor.rest) :
    s.Moves l.toList (s.placed (s.cursor.pos + l.length)) := by
  obtain ⟨r, hr⟩ := h
  rw [← String.length_toList]
  exact State.moves_placed hr.symm

section Whole

variable {source : List Char}

/-- The first piece begins at a place that may be given by any value, so the induction starts behind it. -/
theorem run_pieces_of_isPrefix (hs : s.cursor.Inside source)
    (hls : (String.join (l :: ls)).toList <+: s.cursor.rest) :
    ∃ v vs w t, (thenTakes (take l) ls).run cb c s = (.returned (.ok (paired v vs)), t) ∧
      (take (String.join (l :: ls))).run cb c s = (.returned (.ok w), t) ∧
      s.Moves (String.join (l :: ls)).toList t ∧
      Cursor.Adjacent source s.cursor.pos (v :: vs) t.cursor.pos ∧
      List.Forall₂ (fun (v : Value ω) l => v.text? = .ok l) (v :: vs) (l :: ls) := by
  obtain ⟨w, hwhole⟩ : ∃ w, (take (String.join (l :: ls))).run cb c s =
      (.returned (.ok w), s.placed (s.cursor.pos + (String.join (l :: ls)).length)) := by
    obtain ⟨r, hr⟩ := hls
    exact ⟨_, run_take_of_append hr.symm⟩
  have hmoves := moves_of_isPrefix hls
  have hl := isPrefix_of_join hls
  obtain ⟨r, hr⟩ := isPrefix_of_join hls
  have hfirst : (take l).run cb c s = _ := run_take_of_append hr.symm
  have hpart := Cuts.partOf (.take l) hs hfirst
  have htext := (moves_of_isPrefix hl).text hs hpart
  have hbehind : source.drop (s.cursor.pos + l.length) = r := drop_behind (hs.same ▸ hr.symm)
  rw [join_cons_isPrefix hr.symm, ← hbehind] at hls
  obtain ⟨hadjacent, htexts⟩ := adjacent_pieces (ω := ω) hls hpart.fits.2
  have hrun := run_thenTakes_of_isPrefix rfl hs.same hfirst hls
  rw [Nat.add_assoc, ← String.length_append, ← String.join_cons] at hadjacent hrun
  rw [String.ofList_toList] at htext
  exact ⟨_, _, w, _, hrun, hwhole, hmoves, .cons hpart hadjacent, .cons htext htexts⟩

theorem run_pieces_of_not_isPrefix (hls : ¬ (String.join (l :: ls)).toList <+: s.cursor.rest) :
    ∃ done x rest reason t e, l :: ls = done ++ x :: rest ∧ s.Moves (String.join done).toList t ∧
      ¬ x.toList <+: t.cursor.rest ∧
      (thenTakes (take l) ls).run cb c s =
        (.returned (.failedAt (.takeError x reason) t.cursor.toMark), t) ∧
      (take (String.join (l :: ls))).run cb c s = (.returned (.failedAt e s.cursor.toMark), s) := by
  have hwhole : (take (String.join (l :: ls))).run cb c s = _ := run_take_of_not_isPrefix hls
  by_cases hl : l.toList <+: s.cursor.rest
  · obtain ⟨r, hr⟩ := hl
    have hfirst : (take l).run cb c s = _ := run_take_of_append hr.symm
    have hbehind : s.cursor.source.drop (s.cursor.pos + l.length) = r := drop_behind hr.symm
    rw [join_cons_isPrefix hr.symm, ← hbehind] at hls
    obtain ⟨done, x, rest, reason, rfl, hdone, hx, hrun⟩ :=
      run_thenTakes_of_not_isPrefix rfl rfl hfirst hls
    rw [hbehind, ← join_cons_isPrefix hr.symm] at hdone
    have hmoves := moves_of_isPrefix hdone
    rw [String.join_cons, String.length_append, ← Nat.add_assoc, ← String.join_cons] at hmoves
    exact ⟨l :: done, x, rest, reason, _, _, rfl, hmoves, hx, hrun, hwhole⟩
  · have hfirst : (take l).run cb c s = _ := run_take_of_not_isPrefix hl
    exact ⟨[], l, ls, _, s, _, rfl, s.moves_nil, hl, run_thenTakes_of_failed rfl hfirst, hwhole⟩

/-- A text is taken in pieces where it is taken at once. The pieces lie side by side and end where the text
ends. If it is not there, the sequence stops in front of the first piece that does not come. -/
theorem run_pieces (hs : s.cursor.Inside source) (l : String) (ls : List String) :
    mkThenTakes (take l) ls c s = (.returned (thenTakes (take l) ls), s) ∧
    ((∃ v t, (thenTakes (take l) ls).run cb c s = (.returned (.ok v), t)) ↔
      ∃ w t, (take (String.join (l :: ls))).run cb c s = (.returned (.ok w), t)) ∧
    ((∃ v vs w t, (thenTakes (take l) ls).run cb c s = (.returned (.ok (paired v vs)), t) ∧
        (take (String.join (l :: ls))).run cb c s = (.returned (.ok w), t) ∧
        s.Moves (String.join (l :: ls)).toList t ∧
        Cursor.Adjacent source s.cursor.pos (v :: vs) t.cursor.pos ∧
        List.Forall₂ (fun (v : Value ω) l => v.text? = .ok l) (v :: vs) (l :: ls)) ∨
      ∃ done x rest reason t e, l :: ls = done ++ x :: rest ∧ s.Moves (String.join done).toList t ∧
        ¬ x.toList <+: t.cursor.rest ∧
        (thenTakes (take l) ls).run cb c s =
          (.returned (.failedAt (.takeError x reason) t.cursor.toMark), t) ∧
        (take (String.join (l :: ls))).run cb c s = (.returned (.failedAt e s.cursor.toMark), s)) := by
  refine ⟨mkThenTakes_returned rfl, ?_⟩
  by_cases hls : (String.join (l :: ls)).toList <+: s.cursor.rest
  · obtain ⟨v, vs, w, t, hrun, hwhole, hpieces⟩ := run_pieces_of_isPrefix hs hls
    refine ⟨⟨fun _ => ⟨w, t, hwhole⟩, fun _ => ⟨_, t, hrun⟩⟩, .inl ?_⟩
    exact ⟨v, vs, w, t, hrun, hwhole, hpieces⟩
  · obtain ⟨done, x, rest, reason, t, e, hl, hmoves, hx, hrun, hwhole⟩ := run_pieces_of_not_isPrefix hls
    refine ⟨⟨?_, ?_⟩, .inr ⟨done, x, rest, reason, t, e, hl, hmoves, hx, hrun, hwhole⟩⟩
    · rintro ⟨v, u, hok⟩
      cases hrun.symm.trans hok
    · rintro ⟨w, u, hok⟩
      cases hwhole.symm.trans hok

end Whole

/-- Two pieces come, one of them empty, and the third one does not. -/
theorem run_pieces_third_missing :
    let cb := Assignment.host.callbacks 9 1
    let c : Context Assignment.Function := ⟨Assignment.registry, {}, .warning⟩
    let source := ['x', 'a', 'b', 'c']
    let s : State Assignment.Function Unit := ⟨⟨⟨1, none⟩, source⟩, [], ()⟩
    let p : Parser Assignment.Function := thenTakes (take "a") ["", "bd", "c"]
    s.cursor.Inside source ∧ mkThenTakes (take "a") ["", "bd", "c"] c s = (.returned p, s) ∧
      p.run cb c s = (.returned (.failedAt (.takeError "bd" .noMatch) ⟨2, none⟩), s.placed 2) ∧
      ¬ ∃ w t, (take "abdc").run cb c s = (.returned (.ok w), t) := by
  intro cb c source s p
  have hs : s.cursor.Inside source := ⟨rfl, by decide, Mark.given_mk 1⟩
  have hrun : p.run cb c s =
      (.returned (.failedAt (.takeError "bd" .noMatch) ⟨2, none⟩), s.placed 2) := rfl
  obtain ⟨hbuilt, hiff, -⟩ := run_pieces hs "a" ["", "bd", "c"]
  refine ⟨hs, hbuilt, hrun, fun h => ?_⟩
  obtain ⟨v, t, hok⟩ := hiff.2 h
  cases hrun.symm.trans hok

end ParserAlgebra.Parser
