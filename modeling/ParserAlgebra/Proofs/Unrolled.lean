import ParserAlgebra.Proofs.Alternation
import ParserAlgebra.Proofs.InStep

/-!
# Repetitions as compositions

A repetition is none at all or one attempt and then a repetition; items with separators between them are
an item and then a repetition of separators with an item after each (`Parser.unrolling`). The loops take
back what a last attempt consumed and check progress on their own, and still come to what the compositions
come to.

Where an attempt stands still the loop raises at once, while the composition makes the attempt a second time
before it raises. This comes to the same only if it is the place alone that decides whether an attempt
succeeds (`Action.Local`). What is raised then tells of the place where the one attempt began, or the other
one, and these are one place, but may be told differently (`Parser.EndsAlike`).
-/

namespace ParserAlgebra

variable {ω σ : Type} [HostObject ω] {c : Context ω} {h : Host ω σ} {T : Kind}

/-! ## Places -/

/-- One place of one input, however it is told. -/
structure Cursor.SamePlace (d e : Cursor ω) : Prop where
  source : d.source = e.source
  pos : d.pos = e.pos

/-- The place where the action begins decides whether it succeeds, and where it ends then; and it stays at
places of its input. -/
structure Action.Local (c : Context ω) (x : Action ω σ (Upshot ω)) : Prop where
  again : ∀ {s t s' v}, s.cursor.Placed → t.cursor.Placed → s.cursor.SamePlace t.cursor →
    x c s = (.returned (.succeeded v), s') →
      ∃ w t', x c t = (.returned (.succeeded w), t') ∧ s'.cursor.SamePlace t'.cursor
  stays : ∀ source, x.Keeps (fun d => d.Placed ∧ d.source = source) c

namespace Parser

open ParserAlgebra.Action

variable {cb : Callbacks ω σ} {p q sep : Parser ω} {n : Nat} {s t : State ω σ}
  {v : Value ω}

/-! ## What is observed of the combinators -/

theorem observed_option (hp : p.Faithful cb c T) (d : Value ω) :
    (option d p).observed cb c = ((p.observed cb).otherwise (Pure.pure (.succeeded d))) c := by
  rw [observed, upshot, run, bind_assoc]
  refine bind_congr_of_ensures (.any save) fun m _ => ?_
  rw [observed, upshot, bind_assoc, bind_assoc]
  refine bind_congr_of_ensures hp.told fun a ha => ?_
  rcases ha with ⟨ha, hv⟩ | ⟨ha, he, hpos, -, -⟩
  · simp [ha, Outcome.upshot?_of_succeeded ha hv]
  · simp [ha, Outcome.upshot?_of_failed ha he hpos]
    rfl

theorem observed_map (hp : p.Faithful cb c T) (f : Mapping ω) : (map p f).observed cb c =
    ((p.observed cb).proceed fun v => do return .succeeded (← f.apply cb v)) c := by
  rw [observed, upshot, run, bind_assoc]
  refine upshot_proceed hp.reporting (fun a v ha hv => ?_) fun a e pos ha he hpos _ _ => ?_
  · simp [ha, hv]
  · simp [ha, Outcome.upshot?_of_failed ha he hpos]

theorem Faithful.map (hp : p.Faithful cb c T) (f : Mapping ω) : (map p f).Faithful cb c T := by
  refine ⟨hp.declares, ?_⟩
  rw [run]
  refine .bind hp.told fun a ha => .ifSucceeded lenient_any (fun h => ?_) fun _ => .pure ha
  exact .bind (.any _) fun v _ => .bind (.any _) fun w _ => .pure (.success rfl rfl)

theorem faithful_many (p : Parser ω) : (many p).Faithful cb c T := by
  refine ⟨.inr rfl, ?_⟩
  rw [run]
  exact .bind (.any _) fun vs _ => .pure (.success rfl rfl)

def stopped (p : Parser ω) : String :=
  s!"many({p.name}) stopped: parser succeeded without consuming input"

/-- The loop of a repetition, from no values on. -/
def attempts (cb : Callbacks ω σ) (p : Parser ω) (n : Nat) : Action ω σ (List (Value ω)) :=
  looped .loops p.stopped (p.run cb) n []

/-- What is observed of the loop, after the values that are there already. -/
def gathered (cb : Callbacks ω σ) (p : Parser ω) (done : List (Value ω)) (n : Nat) :
    Action ω σ (Upshot ω) := do
  return .succeeded (.list (done ++ (← attempts cb p n)))

theorem observed_many (p : Parser ω) : (many p).observed cb = gathered cb p [] cb.rounds := by
  rw [observed, upshot, run, repeated_eq_looped]
  simp [attempts, gathered, stopped]

/-- A first part, and a repetition after it that gathers the other items. -/
theorem observed_cons_many (hp : p.Faithful cb c T) (q : Parser ω) :
    (map (seq p (many q)) .cons).observed cb c =
      ((p.observed cb).proceed fun v => gathered cb q [v] cb.rounds) c := by
  rw [observed_map (hp.seq (faithful_many q)),
    proceed_congr (observed_seq hp (faithful_many q)) fun _ => rfl, proceed_proceed]
  refine proceed_congr rfl fun v => ?_
  rw [observed_many]
  simp [proceed, gathered, Mapping.apply]

/-! ## Items with separators between them -/

theorem observed_sepBy1 (hp : p.Faithful cb c T) (sep : Parser ω) : (sepBy1 p sep).observed cb c =
    ((p.observed cb).proceed fun v => do
      return .succeeded (.list (v :: (← looped .combinators
        s!"sep_by1({p.name}) stopped: separator and item consumed no input"
        (pairing (p.run cb) (sep.run cb)) cb.rounds [])))) c := by
  rw [observed, upshot, run, runSepBy1, bind_assoc]
  refine upshot_proceed hp.reporting (fun a v ha hv => ?_) fun a e pos ha he hpos _ _ => ?_
  · simp only [ha, hv, monadLift_ok, pure_bind, if_true, separated_eq_looped, looped_done _ _ _ _ [v]]
    simp
  · simp [ha, Outcome.upshot?_of_failed ha he hpos]

/-- A separator and an item are an attempt of either loop; only the errors may be other ones. -/
theorem inStep_pairing (hp : p.Faithful cb c T) (hs : sep.Faithful cb c T) :
    InStep c id (Outcome.Mapped id fun _ _ => True) (pairing (p.run cb) (sep.run cb))
      ((map (seq sep p) .second).run cb) := by
  rw [pairing, run, run, bind_assoc]
  refine .after_ensures hs.told fun a ha => ?_
  rcases ha with ⟨ha, hv⟩ | ⟨ha, he, hpos, hi, hT⟩
  · simp only [ha, hv, monadLift_ok, pure_bind, if_true, bind_assoc]
    rw [← bind_pure (p.run cb)]
    simp only [bind_assoc]
    refine .after_ensures hp.told fun b hb => ?_
    rcases hb with ⟨hb, hw⟩ | ⟨hb, he, hpos, hi, hT⟩
    · simpa [hb, hw, Mapping.apply] using InStep.pure (.success hb hw rfl rfl)
    · simpa [hb, retarget_joined hs.declares hp.declares (.inr rfl) hi he hpos hT] using
        InStep.pure (.failure hb rfl trivial)
  · simpa [ha, retarget_joined hs.declares hp.declares (.inl rfl) hi he hpos hT] using
      InStep.pure (.failure ha rfl trivial)

theorem sepBy1_behavesAs (hp : p.Upright h c T) (hs : sep.Upright h c T) :
    (sepBy1 p sep).BehavesAs h c (map (seq p (many (map (seq sep p) .second))) .cons) := by
  refine behavesAs_of_inStep fun rounds depth => ?_
  have hp := hp rounds depth
  have hround := inStep_pairing hp (hs rounds depth)
  refine .congr_left (observed_sepBy1 hp sep) (.congr_right (observed_cons_many hp _) ?_)
  refine .after fun u => ?_
  cases u with
  | succeeded v =>
    refine .bind (inStep_looped hround _ []) fun vs ws hws => ?_
    obtain rfl : ws = vs := hws.trans (List.map_id vs)
    exact .pure rfl
  | failed e pos => exact .pure rfl

/-! ## One attempt and then a repetition -/

/-- What is observed of a repetition that is put together: nothing in place of one attempt and the loop. -/
def unrolled (cb : Callbacks ω σ) (p : Parser ω) (n : Nat) : Action ω σ (Upshot ω) :=
  ((p.observed cb).proceed fun v => gathered cb p [v] n).otherwise (Pure.pure (.succeeded (.list [])))

theorem observed_option_many1 (hp : p.Faithful cb c T) :
    (option (.list []) (map (seq p (many p)) .cons)).observed cb c = unrolled cb p cb.rounds c := by
  rw [observed_option ((hp.seq (faithful_many p)).map .cons),
    otherwise_congr (observed_cons_many hp p) rfl]
  rfl

theorem unrolled_apply (s : State ω σ) : unrolled cb p n c s =
    match p.observed cb c s with
    | (.returned (.succeeded v), t) => gathered cb p [v] n c t
    | (.returned (.failed _ _), t) => (.returned (.succeeded (.list [])), t.backTo s.cursor.toMark)
    | (.raised e, t) => (.raised e, t)
    | (.exhausted, t) => (.exhausted, t) := by
  rw [unrolled, otherwise_apply, proceed, bind_apply]
  rcases p.observed cb c s with ⟨(v | ⟨e, pos⟩) | e | _, t⟩
  · simp only [gathered, bind_pure_comp, map_apply]
    rcases attempts cb p n c t with ⟨vs | e | _, u⟩ <;> rfl
  · rfl
  · rfl
  · rfl

theorem gathered_succ_apply (hp : p.Faithful cb c T) (s : State ω σ) :
    gathered cb p [] (n + 1) c s =
    match p.observed cb c s with
    | (.returned (.succeeded v), t) =>
      (do checkProgress .loops p.stopped s.cursor.toMark
          gathered cb p [v] n : Action ω σ (Upshot ω)) c t
    | (.returned (.failed _ _), t) => (.returned (.succeeded (.list [])), t.backTo s.cursor.toMark)
    | (.raised e, t) => (.raised e, t)
    | (.exhausted, t) => (.exhausted, t) := by
  rw [gathered, attempts, looped, bind_assoc, bind_apply, save_apply, observed, upshot, bind_apply]
  dsimp only
  rw [bind_assoc, bind_apply]
  rcases hr : p.run cb c s with ⟨a | e | _, t⟩
  · rcases hp.told.returned hr with ⟨ha, hv⟩ | ⟨ha, he, hpos, -, -⟩
    · simp only [ha, hv, Outcome.upshot?_of_succeeded ha hv, monadLift_ok, pure_bind, if_true,
        looped_done _ _ _ _ [_], bind_assoc]
      rfl
    · simp [ha, Outcome.upshot?_of_failed ha he hpos, bind_apply]
      rfl
  · rfl
  · rfl

/-! ## Standing still at one place -/

/-- One answer, and the cursor at one place; but where both stand still, the place may be told by another
mark. -/
inductive EndsAlike : Answer ω (Upshot ω) → Cursor ω → Answer ω (Upshot ω) → Cursor ω → Prop
  | same (a : Answer ω (Upshot ω)) (d : Cursor ω) : EndsAlike a d a d
  | still {m n : Mark ω} {d e : Cursor ω} (hm : m.equal n = .ok true) (hd : d.SamePlace e) :
      EndsAlike (.raised m.standstill) d (.raised n.standstill) e

/-- What the first attempt from a state leads to, for the loop and for the composition. -/
inductive Begins (c : Context ω) (cb : Callbacks ω σ) (p : Parser ω) (s : State ω σ) : Prop
  | settled (h : ∀ n m, gathered cb p [] (n + 1) c s = unrolled cb p m c s)
  | moved (v : Value ω) (t : State ω σ)
      (hloop : ∀ n, gathered cb p [] (n + 1) c s = gathered cb p [v] n c t)
      (hrest : ∀ n, unrolled cb p n c s = gathered cb p [v] n c t)
  | still (h : ∀ n m, EndsAlike (gathered cb p [] (n + 1) c s).1
        (gathered cb p [] (n + 1) c s).2.cursor (unrolled cb p (m + 1) c s).1
        (unrolled cb p (m + 1) c s).2.cursor)
      (hrest : (unrolled cb p 0 c s).1 = .exhausted)

theorem checkProgress_raises (ch : Level.Channel) (message : String)
    (hon : c.settings.checksProgress = .ok true) {m : Mark ω}
    (h : s.cursor.toMark.equal m = .ok true) : ∃ u,
      checkProgress ch message m c s = (.raised m.standstill, u) ∧ u.cursor = s.cursor := by
  obtain ⟨u, hu, hlog⟩ : ∃ u : State ω σ, u.Alike id s ∧ _ := log_returned .warning ch message s
  refine ⟨u, ?_, hu.cursor⟩
  have hraise : checkProgress ch message m c s =
      (do Action.log .warning ch message; raise m.standstill : Action ω σ Unit) c s := by
    simp [checkProgress, bind_apply, h, hon, ← raise_standstill]
  rw [hraise, bind_apply, hlog]
  rfl

theorem gathered_of_still (hp : p.Faithful cb c T) (hon : c.settings.checksProgress = .ok true)
    (hx : p.observed cb c s = (.returned (.succeeded v), t))
    (hm : t.cursor.toMark.equal s.cursor.toMark = .ok true) (done : List (Value ω)) (n : Nat) : ∃ u,
      gathered cb p done (n + 1) c s = (.raised s.cursor.toMark.standstill, u) ∧
        u.cursor = t.cursor := by
  obtain ⟨u, hraises, hu⟩ := checkProgress_raises .loops p.stopped hon hm
  have hloop : gathered cb p [] (n + 1) c s = (.raised s.cursor.toMark.standstill, u) := by
    rw [gathered_succ_apply hp, hx]
    dsimp only
    rw [bind_apply, hraises]
  refine ⟨u, ?_, hu⟩
  simp only [gathered, bind_pure_comp, map_apply] at hloop ⊢
  generalize attempts cb p (n + 1) c s = r at hloop ⊢
  obtain ⟨vs | e | _, w⟩ := r
  · cases hloop
  · exact hloop
  · cases hloop

theorem begins (hp : p.Faithful cb c T) (hl : (p.observed cb).Local c)
    (hon : c.settings.checksProgress = .ok true) (hs : s.cursor.Placed) : Begins c cb p s := by
  rcases hx : p.observed cb c s with ⟨(v | ⟨e, pos⟩) | e | _, t⟩
  case returned.failed | raised | exhausted =>
    exact .settled fun n m => by rw [gathered_succ_apply hp, unrolled_apply, hx]
  have ⟨ht, hsource⟩ := (hl.stays s.cursor.source).returned hx ⟨hs, rfl⟩
  have hequal := ht.counts.equal hs.counts
  by_cases hpos : t.cursor.pos = s.cursor.pos
  · -- The second attempt begins at the place where the first one began.
    have hst : s.cursor.SamePlace t.cursor := ⟨hsource.symm, hpos.symm⟩
    obtain ⟨w, t', hx', hend⟩ := hl.again hs ht hst hx
    have ht' := ((hl.stays s.cursor.source).returned hx' ⟨ht, hsource⟩).1
    have hm : t.cursor.toMark.equal s.cursor.toMark = .ok true := by rw [hequal, hpos, beq_self_eq_true]
    have hm' : t'.cursor.toMark.equal t.cursor.toMark = .ok true := by
      rw [ht'.counts.equal ht.counts, hend.pos, beq_self_eq_true]
    refine .still (fun n m => ?_) (by rw [unrolled_apply, hx]; rfl)
    obtain ⟨u, hu, hcursor⟩ := gathered_of_still hp hon hx hm [] n
    obtain ⟨u', hu', hcursor'⟩ := gathered_of_still hp hon hx' hm' [v] m
    have hrest : unrolled cb p (m + 1) c s = (.raised t.cursor.toMark.standstill, u') := by
      rw [unrolled_apply, hx]
      exact hu'
    rw [hu, hrest]
    dsimp only
    rw [hcursor, hcursor']
    exact .still (by rw [hs.counts.equal ht.counts, hpos, beq_self_eq_true]) hend
  · have hm : t.cursor.toMark.equal s.cursor.toMark = .ok false := by
      rw [hequal, beq_eq_false_iff_ne.2 hpos]
    have hgo : checkProgress .loops p.stopped s.cursor.toMark c t = (.returned (), t) :=
      checkProgress_of_moved hm
    refine .moved v t (fun n => ?_) fun n => by rw [unrolled_apply, hx]
    rw [gathered_succ_apply hp, hx]
    dsimp only
    rw [bind_apply, hgo]

theorem within_gathered {cb' : Callbacks ω σ} (hp : (p.run cb).Within c (p.run cb'))
    (done : List (Value ω)) {n m : Nat} (h : n ≤ m) :
    (gathered cb p done n).Within c (gathered cb' p done m) :=
  (within_looped hp h).bind fun _ => .refl _

/-- What the loop comes to, the composition comes to with as many rounds. -/
theorem endsAlike_unrolled (hp : p.Faithful cb c T) (hl : (p.observed cb).Local c)
    (hon : c.settings.checksProgress = .ok true) (hs : s.cursor.Placed)
    (hends : (gathered cb p [] n c s).1 ≠ .exhausted) :
    EndsAlike (gathered cb p [] n c s).1 (gathered cb p [] n c s).2.cursor
      (unrolled cb p n c s).1 (unrolled cb p n c s).2.cursor := by
  rcases n with _ | n
  · exact absurd rfl hends
  rcases begins hp hl hon hs with h | ⟨v, t, hloop, hrest⟩ | ⟨h, -⟩
  · rw [h n (n + 1)]
    exact .same _ _
  · rw [hloop] at hends ⊢
    rw [hrest, (within_gathered (.refl _) [v] (Nat.le_succ n)).finished hends]
    exact .same _ _
  · exact h n n

/-- What the composition comes to, the loop comes to with one round more. -/
theorem unrolled_endsAlike (hp : p.Faithful cb c T) (hl : (p.observed cb).Local c)
    (hon : c.settings.checksProgress = .ok true) (hs : s.cursor.Placed)
    (hends : (unrolled cb p n c s).1 ≠ .exhausted) :
    EndsAlike (gathered cb p [] (n + 1) c s).1 (gathered cb p [] (n + 1) c s).2.cursor
      (unrolled cb p n c s).1 (unrolled cb p n c s).2.cursor := by
  rcases begins hp hl hon hs with h | ⟨v, t, hloop, hrest⟩ | ⟨h, hnone⟩
  · rw [h n n]
    exact .same _ _
  · rw [hloop, hrest]
    exact .same _ _
  · rcases n with _ | n
    · exact absurd hnone hends
    · exact h (n + 1) n

/-! ## The loops and the compositions -/

/-- Wherever one of them ends from the state, the other one ends alike. -/
structure EndsAsWell (h : Host ω σ) (c : Context ω) (p q : Parser ω) (s : State ω σ) : Prop where
  left : ∀ answer d, p.EndsWith h c s answer d →
    ∃ answer' d', q.EndsWith h c s answer' d' ∧ EndsAlike answer d answer' d'
  right : ∀ answer d, q.EndsWith h c s answer d →
    ∃ answer' d', p.EndsWith h c s answer' d' ∧ EndsAlike answer' d' answer d

theorem EndsAlike.finished {a b : Answer ω (Upshot ω)} {d e : Cursor ω} (h : EndsAlike a d b e) :
    a ≠ .exhausted ↔ b ≠ .exhausted := by
  cases h <;> simp

/-- The place decides whether it succeeds, however many rounds and however much depth its run is given. -/
def Local (h : Host ω σ) (c : Context ω) (p : Parser ω) : Prop :=
  ∀ rounds depth, (p.observed (h.callbacks rounds depth)).Local c

theorem many_endsAsWell (hp : p.Upright h c T) (hl : p.Local h c)
    (hon : c.settings.checksProgress = .ok true) (hh : h.Monotone c) (hs : s.cursor.Placed) :
    (many p).EndsAsWell h c (option (.list []) (map (seq p (many p)) .cons)) s := by
  have hrounds (rounds depth : Nat) : (h.callbacks rounds depth).rounds = rounds := by
    cases depth <;> rfl
  constructor
  · rintro answer d ⟨hends, rounds, depth, rfl, rfl⟩
    rw [observed_many, hrounds] at hends ⊢
    have halike := endsAlike_unrolled (hp rounds depth) (hl rounds depth) hon hs hends
    refine ⟨_, _, ⟨halike.finished.1 hends, rounds, depth, ?_, ?_⟩, halike⟩ <;>
      rw [observed_option_many1 (hp rounds depth), hrounds]
  · rintro answer d ⟨hends, rounds, depth, rfl, rfl⟩
    rw [observed_option_many1 (hp rounds depth), hrounds] at hends ⊢
    have halike := unrolled_endsAlike (hp rounds depth) (hl rounds depth) hon hs hends
    have hmore := p.within_run (hh.callbacks (Nat.le_succ rounds) (Nat.le_refl depth))
    have hsame := (within_gathered hmore [] (Nat.le_refl _)).finished (halike.finished.2 hends)
    refine ⟨_, _, ⟨halike.finished.2 hends, rounds + 1, depth, ?_, ?_⟩, halike⟩ <;>
      rw [observed_many, hrounds, hsame]

/-- The repetitions of `p`, and what they are put together as. -/
structure Unrolled (h : Host ω σ) (c : Context ω) (p sep : Parser ω) : Prop where
  many : ∃ r, (∀ s : State ω σ, mkMany1 p c s = (.returned r, s)) ∧
    ∀ s : State ω σ, s.cursor.Placed → (Parser.many p).EndsAsWell h c (option (.list []) r) s
  sepBy1 : ∃ b r, (∀ s : State ω σ, mkBefore sep p c s = (.returned b, s) ∧
      mkSeq p (Parser.many b) c s = (.returned r, s)) ∧
    (Parser.sepBy1 p sep).BehavesAs h c (map r .cons)

theorem observed_take (literal : String) : (take literal).observed cb c s =
    (.returned (.succeeded v), t) ↔ s.cursor.startsWith literal.toList = true ∧
      s.cursor.spanTo (s.cursor.pos + literal.length) = v ∧
        { s with cursor := s.cursor.onTo (s.cursor.pos + literal.length) } = t := by
  rw [observed, upshot, run, bind_assoc, bind_apply, cursor_apply]
  dsimp only
  by_cases hm : s.cursor.startsWith literal.toList = true
  · simp only [hm, if_true, true_and]
    change ((Answer.returned (Upshot.succeeded (s.cursor.spanTo _)), _) : _ × State ω σ) = _ ↔ _
    simp
  · simp only [hm, Bool.false_eq_true, if_false, false_and, iff_false]
    change ((Answer.returned (Upshot.failed _ _), _) : _ × State ω σ) ≠ _
    simp

theorem local_take (literal : String) : (take literal).Local h c := by
  intro rounds depth
  constructor
  · intro s t s' v hs ht hst hx
    obtain ⟨hm, -, rfl⟩ := (observed_take literal).1 hx
    have hm' : t.cursor.startsWith literal.toList = true := by
      rw [← hm, Cursor.startsWith, Cursor.startsWith, Cursor.rest, Cursor.rest, hst.source, hst.pos]
    exact ⟨_, _, (observed_take literal).2 ⟨hm', rfl, rfl⟩, hst.source,
      congrArg (· + literal.length) hst.pos⟩
  · intro source
    refine .bind ?_ fun _ => .ask
    rw [run]
    refine .cursor_bind fun d hd => ?_
    dsimp only
    split
    · next hm =>
      exact .bind (.setCursor ⟨⟨Cursor.literal_within hd.1.inside hm, Mark.counts_mk _⟩, hd.2⟩)
        fun _ => .pure _
    · exact .pure _

end Parser

end ParserAlgebra
