import ParserAlgebra.Proofs.Alternation
import ParserAlgebra.Proofs.AssignmentParts
import ParserAlgebra.Proofs.Confinement

/-!
# Repetitions without loss

A parser may hand out the very part of the input that it consumes, and so may what is made of such parsers
by alternatives and by combinators that leave a success as it is (`Parser.Spanning`): whatever a failed
alternative has consumed, the next one starts from the same place (`Parser.Spanning.piece`). What a
repetition of such a parser gathers is therefore the input between its two ends, cut into adjacent pieces
(`Parser.many_lossless`). Where progress is checked none of the pieces is empty.
-/

namespace ParserAlgebra

variable {ω σ : Type} [HostObject ω] {cb : Callbacks ω σ} {c : Context ω} {source : List Char}
  {s t u : State ω σ} {a : Outcome ω}

/-- Converting an error leaves the cursor in its input. -/
def ConversionsKeepInput (cb : Callbacks ω σ) (c : Context ω) (source : List Char) : Prop :=
  ∀ (e : Value ω) (d : Declared ω) (conv : Conversion ω),
    c.registry.route? e.kindOf d = .ok (some conv) →
      (Conversion.apply cb d e conv).Keeps (fun d => d.source = source) c

namespace Parser

variable {p q r : Parser ω}

/-- A success from `s` hands out the part of the input up to the place where it ends, which is told by a
plain number. A failure may end anywhere in the input. -/
inductive Piece (source : List Char) (s t : State ω σ) : Outcome ω → Prop
  | success {v : Value ω} {j : Nat} (ht : t.cursor = s.cursor.onTo j)
      (hv : v.PartOf source s.cursor.pos j) : Piece source s t (.ok v)
  | failure {a : Outcome ω} (ha : a.succeeded = .ok false) (ht : t.cursor.source = source) :
      Piece source s t a

/-- However the parser returns, its outcome is a piece. -/
def Severs (cb : Callbacks ω σ) (c : Context ω) (source : List Char) (p : Parser ω) : Prop :=
  ∀ {s a t}, s.cursor.Inside source → p.run cb c s = (.returned a, t) → Piece source s t a

theorem Piece.of_succeeded (h : Piece source s t a) (hs : s.cursor.Inside source)
    (ha : a.succeeded = .ok true) : ∃ v, a = .ok v ∧ v.PartOf source s.cursor.pos t.cursor.pos ∧
      t.cursor.Inside source ∧ t.cursor.toMark.Counts := by
  cases h with
  | @success v j ht hv =>
    rw [ht]
    exact ⟨v, rfl, hv, hs.onTo hv.fits.2, Mark.counts_mk j⟩
  | failure hfail => cases ha.symm.trans hfail

theorem Piece.source_of_failed (h : Piece source s t a) (ha : a.succeeded = .ok false) :
    t.cursor.source = source := by
  cases h with
  | success => cases ha
  | failure _ ht => exact ht

/-! ## One attempt -/

theorem Cuts.returned (hp : p.Cuts) (h : p.run cb c s = (.returned a, t)) :
    (∃ v j, a = .ok v ∧ t.cursor = s.cursor.onTo j) ∨ a.succeeded = .ok false ∧ t = s := by
  cases hp with
  | nextChar =>
    rw [run, Action.bind_apply, Action.cursor_apply] at h
    dsimp only at h
    split at h
    · cases h
      exact .inr ⟨rfl, rfl⟩
    · cases h
      exact .inl ⟨_, _, rfl, rfl⟩
  | word =>
    rw [run, Action.bind_apply, Action.cursor_apply] at h
    dsimp only at h
    rw [Action.bind_apply, skipRun_apply] at h
    by_cases hn : (s.cursor.rest.takeWhile fun c => !isBlank c).length = 0
    · simp only [hn, if_true] at h
      cases h
      exact .inr ⟨rfl, rfl⟩
    · simp only [hn, if_false] at h
      cases h
      exact .inl ⟨_, _, rfl, rfl⟩
  | take literal =>
    rw [run, Action.bind_apply, Action.cursor_apply] at h
    dsimp only at h
    split at h
    · cases h
      exact .inl ⟨_, _, rfl, rfl⟩
    · cases h
      exact .inr ⟨rfl, rfl⟩

theorem Cuts.severs (hp : p.Cuts) : p.Severs cb c source := by
  intro s a t hs h
  rcases hp.returned h with ⟨v, j, rfl, ht⟩ | ⟨ha, rfl⟩
  · have hv : v.PartOf source s.cursor.pos t.cursor.pos := hp.partOf hs h
    rw [ht] at hv
    exact .success ht hv
  · exact .failure ha hs.same

section Converting

variable (hc : ConversionsKeepInput cb c source)

include hc

theorem piece_retarget {name : String} {from' target : Declared ω} {b : Outcome ω}
    (ht : t.cursor.source = source)
    (h : retarget cb name from' target b c t = (.returned a, u)) : Piece source s u a := by
  obtain ⟨_, e, _, e', -, -, -, -, he, rfl⟩ := retarget_returned h
  refine .failure rfl ?_
  rcases Conversion.coerce_returned he with ⟨-, rfl⟩ | ⟨conv, hroute, happly⟩
  · exact ht
  · exact (hc e target conv hroute).returned happly ht

theorem Severs.convert (hp : p.Severs cb c source) (target : Declared ω) :
    (convert p target).Severs cb c source := by
  intro s a u hs h
  rw [run] at h
  obtain ⟨b, t, hb, h⟩ := Action.bind_returned.1 h
  have hpiece := hp hs hb
  rcases Action.ifSucceeded_returned h with ⟨-, h⟩ | ⟨hfail, h⟩
  · obtain ⟨rfl, rfl⟩ : b = a ∧ t = u := by simpa using h
    exact hpiece
  · exact piece_retarget hc (hpiece.source_of_failed hfail) h

/-- The second alternative begins at the cursor of the first one. -/
theorem Severs.alt (hp : p.Severs cb c source) (hq : q.Severs cb c source) :
    (alt p q).Severs cb c source := by
  intro s a u hs h
  rw [run, Action.bind_apply, Action.save_apply] at h
  obtain ⟨b, t, hb, h⟩ := Action.bind_returned.1 h
  have hpiece := hp hs hb
  rcases Action.ifSucceeded_returned h with ⟨-, h⟩ | ⟨hfail, h⟩
  · obtain ⟨rfl, rfl⟩ : b = a ∧ t = u := by simpa using h
    exact hpiece
  · have hback : (t.backTo s.cursor.toMark).cursor = s.cursor :=
      State.backTo_cursor ((hpiece.source_of_failed hfail).trans hs.same.symm)
    rw [Action.bind_apply, Action.rewindTo_apply] at h
    obtain ⟨b', t', hb', h⟩ := Action.bind_returned.1 h
    have hpiece' : Piece source (t.backTo s.cursor.toMark) t' b' := hq (hback ▸ hs) hb'
    rcases Action.ifSucceeded_returned h with ⟨-, h⟩ | ⟨hfail', h⟩
    · obtain ⟨rfl, rfl⟩ : b' = a ∧ t' = u := by simpa using h
      cases hpiece' with
      | success ht' hv =>
        rw [hback] at ht' hv
        exact .success ht' hv
      | failure ha' ht' => exact .failure ha' ht'
    · rw [Action.bind_apply, Action.rewindTo_apply] at h
      have ht' := hpiece'.source_of_failed hfail'
      exact piece_retarget (t := t'.backTo s.cursor.toMark) hc ht' h

theorem Severs.foldl_alt {ps : List (Parser ω)} (hp : p.Severs cb c source)
    (hps : ∀ q ∈ ps, q.Severs cb c source) : (ps.foldl Parser.alt p).Severs cb c source := by
  induction ps generalizing p with
  | nil => exact hp
  | cons q ps ih =>
    obtain ⟨hq, hps⟩ := List.forall_mem_cons.1 hps
    exact ih (hp.alt hc hq) hps

end Converting

theorem Severs.rewind (hp : p.Severs cb c source) : (rewind p).Severs cb c source := by
  intro s a u hs h
  rw [run, Action.bind_apply, Action.save_apply] at h
  obtain ⟨b, t, hb, h⟩ := Action.bind_returned.1 h
  have hpiece := hp hs hb
  rcases Action.ifSucceeded_returned h with ⟨-, h⟩ | ⟨hfail, h⟩
  · obtain ⟨rfl, rfl⟩ : b = a ∧ t = u := by simpa using h
    exact hpiece
  · obtain ⟨rfl, rfl⟩ : b = a ∧ t.backTo s.cursor.toMark = u := by
      simpa [Action.bind_apply] using h
    exact .failure hfail (hpiece.source_of_failed hfail)

theorem Severs.traced (hp : p.Severs cb c source) (label : String) :
    (traced label p).Severs cb c source := by
  intro s a u hs h
  obtain ⟨r, t, hr, ht, -, hends⟩ := traced_returned h
  have hcursor : r.cursor = s.cursor := (logs_runTrace label s () r hr).1
  have hpiece := hp (hcursor ▸ hs) ht
  rcases hends with ⟨hok, hu⟩ | ⟨hfail, hu⟩
  · cases hpiece with
    | success hend hv =>
      rw [hcursor] at hend hv
      exact .success (hu.trans hend) hv
    | failure hfail => cases hok.symm.trans hfail
  · exact .failure hfail (hu ▸ hpiece.source_of_failed hfail)

/-- The parsers that are made of parsers which hand out what they consume, by alternatives and by what
leaves a success as it is. -/
inductive Spanning : Parser ω → Prop
  | cut {p : Parser ω} (h : p.Cuts) : Spanning p
  | alt {p q : Parser ω} (hp : Spanning p) (hq : Spanning q) : Spanning (alt p q)
  | choice {σ : Type} {os : List (Operand ω)} {r : Parser ω} {c₀ : Context ω} {s₀ t₀ : State ω σ}
      (hos : ∀ o ∈ os, ∀ p, o.toParser none = .ok p → Spanning p)
      (h : mkChoice os c₀ s₀ = (.returned r, t₀)) : Spanning r
  | rewind {p : Parser ω} (hp : Spanning p) : Spanning (rewind p)
  | convert {p : Parser ω} (hp : Spanning p) (target : Declared ω) : Spanning (convert p target)
  | traced {p : Parser ω} (label : String) (hp : Spanning p) : Spanning (traced label p)

theorem severs_fail (e : Value ω) : (fail e).Severs cb c source := by
  intro s a t hs h
  obtain ⟨rfl, rfl⟩ : Outcome.err e s.cursor.value = a ∧ s = t := by
    simpa [run, Action.bind_apply, Outcome.failedAt] using h
  exact .failure rfl hs.same

/-- Each success is the part of the input that was consumed, whatever failed before it. -/
theorem Spanning.severs (hc : ConversionsKeepInput cb c source) (hp : p.Spanning) :
    p.Severs cb c source := by
  induction hp with
  | cut h => exact h.severs
  | alt _ _ ihp ihq => exact ihp.alt hc ihq
  | @choice _ os r c₀ s₀ t₀ _ h ih =>
    rcases os with _ | ⟨o, os⟩
    · obtain ⟨rfl, -⟩ : fail noAlternatives = r ∧ s₀ = t₀ := by simpa [mkChoice] using h
      exact severs_fail _
    · obtain ⟨p, ps, ho, hps, -, rfl, -⟩ := mkChoice_returned.1 h
      refine Severs.foldl_alt hc (ih o (List.mem_cons_self ..) p ho) fun q hq => ?_
      obtain ⟨o', hmem, ho'⟩ := hps.mem hq
      exact ih o' (List.mem_cons_of_mem _ hmem) q ho'
  | rewind _ ih => exact ih.rewind
  | convert _ target ih => exact ih.convert hc target
  | traced label _ ih => exact ih.traced label

/-! ## Repetitions -/

section Rows

variable {R : Mark ω → Mark ω → Prop} {vs : List (Value ω)} (hp : p.Severs cb c source)
  (hs : s.cursor.Inside source)

include hp hs

theorem Strides.adjacent (h : Strides c R (p.run cb) s vs t) :
    Cursor.Adjacent source s.cursor.pos vs t.cursor.pos := by
  induction h with
  | nil => exact .nil _
  | cons h ha hv _ _ ih =>
    obtain ⟨w, rfl, hw, ht, -⟩ := (hp hs h).of_succeeded hs ha
    obtain rfl := Except.ok.inj hv
    exact .cons hw (ih ht)

/-- An attempt that succeeds elsewhere has consumed something. -/
theorem Strides.nonempty (hcounts : s.cursor.toMark.Counts)
    (h : Strides c Elsewhere (p.run cb) s vs t) :
    ∀ v ∈ vs, ∃ i j, i < j ∧ v.PartOf source i j := by
  induction h with
  | nil => simp
  | @cons s t u a v vs h ha hv hm _ ih =>
    obtain ⟨w, rfl, hw, ht, htcounts⟩ := (hp hs h).of_succeeded hs ha
    obtain rfl := Except.ok.inj hv
    have hmoved : t.cursor.pos ≠ s.cursor.pos := by
      rw [Elsewhere, htcounts.equal hcounts] at hm
      simpa using hm
    refine List.forall_mem_cons.2 ⟨⟨_, _, ?_, hw⟩, ih ht htcounts⟩
    exact Nat.lt_of_le_of_ne hw.fits.1 hmoved.symm

end Rows

/-- Where progress is checked, each of the attempts that a repetition gathers was at another place. -/
theorem strides_of_many (hon : c.settings.checksProgress = .ok true) {vs : List (Value ω)}
    (h : (many p).run cb c s = (.returned (.ok (.list vs)), u)) :
    ∃ t, Strides c Elsewhere (p.run cb) s vs t := by
  rw [run, repeated_eq_looped] at h
  obtain ⟨ws, t, hws, h⟩ := Action.bind_returned.1 h
  obtain ⟨rfl, rfl⟩ : ws = vs ∧ t = u := by simpa using h
  obtain ⟨vs, w, hvs, ⟨-, hrun⟩ | ⟨x, u, -, hlast, hrun⟩⟩ := looped_run hon .loops
    s!"many({p.name}) stopped: parser succeeded without consuming input" (p.run cb) cb.rounds [] s
  · cases hws.symm.trans hrun
  · obtain ⟨rfl, rfl⟩ := Prod.mk.inj (hws.symm.trans hrun)
    cases hlast with
    | failed => exact ⟨w, hvs⟩

/-- A repetition hands out everything it consumes, once and in its order, in pieces that are not empty
where progress is checked. -/
theorem many_lossless (hc : ConversionsKeepInput cb c source) (hp : p.Spanning)
    (hs : s.cursor.Inside source) (h : (many p).run cb c s = (.returned a, u)) :
    ∃ vs, a = .ok (.list vs) ∧ Cursor.Adjacent source s.cursor.pos vs u.cursor.pos ∧
      (∃ ts : List (List Char), List.Forall₂ (fun v t => v.text? = .ok (String.ofList t)) vs ts ∧
        ts.flatten = (source.drop s.cursor.pos).take (u.cursor.pos - s.cursor.pos)) ∧
      (c.settings.checksProgress = .ok true → s.cursor.toMark.Counts →
        ∀ v ∈ vs, ∃ i j, i < j ∧ v.PartOf source i j) := by
  have hsevers : p.Severs cb c source := hp.severs hc
  obtain ⟨vs, t, hvs, rfl, hu⟩ := many_returned h
  have hadjacent : Cursor.Adjacent source s.cursor.pos vs u.cursor.pos := by
    rw [hu]
    exact hvs.row.adjacent hsevers hs
  refine ⟨vs, rfl, hadjacent, hadjacent.texts, fun hon hcounts => ?_⟩
  obtain ⟨t, hrow⟩ := strides_of_many hon h
  exact hrow.nonempty hsevers hs hcounts

end Parser

theorem Assignment.conversionsKeepInput {rounds depth : Nat} {settings : Settings Function}
    {threshold : Level} : ConversionsKeepInput (host.callbacks rounds depth)
      ⟨registry, settings, threshold⟩ source := by
  rintro e (t | v) conv h
  · obtain ⟨-, rfl⟩ := find?_registry (Except.ok.inj h)
    exact .ask
  · exact absurd h (Registry.stray?_of_nil rfl _ v conv)

/-- Words that are wrapped and taken back, or blanks and dashes, all of them traced: the input from its
second character on. -/
theorem Parser.many_lossless_words :
    let cb := Assignment.host.callbacks 9 1
    let c : Context Assignment.Function := ⟨Assignment.registry, {}, .warning⟩
    let source := ['x', 'a', ' ', 'b', 'c', '-']
    let s : State Assignment.Function Unit := ⟨⟨⟨1, none⟩, source⟩, [], ()⟩
    let gap : List (Operand Assignment.Function) := [.parser (.take " "), .parser (.take "-")]
    let item : Parser Assignment.Function := .convert .word (.kind Assignment.failed)
    ∃ q, mkChoice gap c s = (.returned q, s) ∧
      let p : Parser Assignment.Function := .traced "piece" (.alt (.rewind item) q)
      ConversionsKeepInput cb c source ∧ p.Spanning ∧ s.cursor.Inside source ∧
        s.cursor.toMark.Counts ∧ c.settings.checksProgress = .ok true ∧
        ∃ vs u, (many p).run cb c s = (.returned (.ok (.list vs)), u) ∧ vs.length = 3 ∧
          Cursor.Adjacent source 1 vs 6 ∧ ∀ v ∈ vs, ∃ i j, i < j ∧ v.PartOf source i j := by
  intro cb c source s gap item
  have hgap : mkChoice gap c s = (.returned (.alt (.take " ") (.take "-")), s) := rfl
  refine ⟨_, hgap, ?_⟩
  intro p
  have hc : ConversionsKeepInput cb c source := Assignment.conversionsKeepInput
  have hspanning : p.Spanning := by
    refine .traced _ (.alt (.rewind (.convert (.cut .word) _)) (.choice (fun o ho p hp => ?_) hgap))
    rcases List.mem_pair.1 ho with rfl | rfl <;> obtain rfl := Except.ok.inj hp <;>
      exact .cut (.take _)
  have hs : s.cursor.Inside source := ⟨rfl, by decide, Mark.given_mk 1⟩
  obtain ⟨vs, u, hrun, hlen, hpos⟩ : ∃ vs u, (many p).run cb c s = (.returned (.ok (.list vs)), u) ∧
      vs.length = 3 ∧ u.cursor.pos = 6 := ⟨_, _, rfl, rfl, rfl⟩
  obtain ⟨vs', hvs, hadjacent, -, hnonempty⟩ := many_lossless hc hspanning hs hrun
  cases hvs
  rw [hpos] at hadjacent
  exact ⟨hc, hspanning, hs, Mark.counts_mk 1, rfl, vs, u, hrun, hlen, hadjacent,
    hnonempty rfl (Mark.counts_mk 1)⟩

end ParserAlgebra
