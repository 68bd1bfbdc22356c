import ParserAlgebra.Proofs.Building
import ParserAlgebra.Proofs.InStep
import ParserAlgebra.Proofs.Sequencing
import ParserAlgebra.Proofs.Valued

/-!
# Values do not steer a parse

What decides how a parse goes on is whether an outcome counts as a success, never the value of the success.
So a function that only makes a value of a value may be applied before a combinator or after it: to each
item of a repetition or to the list, to the first part or to the pair, before a choice or behind it
(`Parser.natural`). It does not matter what values it makes. What is written to the log may differ, and in
the message of an exception the name of a parser.

A success is asked for its value only where the value is used. So where a repetition or a sequence is
concerned, successes must have a value (`Parser.seq_unnatural`).
-/

namespace ParserAlgebra

variable {ω σ γ : Type} [HostObject ω] {cb : Callbacks ω σ} {c : Context ω}

/-- Applied to a value `v` it returns `F v`, and does nothing else. -/
def Mapping.Total (cb : Callbacks ω σ) (c : Context ω) (f : Mapping ω) (F : Value ω → Value ω) : Prop :=
  ∀ v s, f.apply cb v c s = (.returned (F v), s)

namespace Value

def onItems (F : Value ω → Value ω) : Value ω → Value ω
  | .list vs => .list (vs.map F)
  | v => v

def onFirst (F : Value ω → Value ω) : Value ω → Value ω
  | .tuple (v :: vs) => .tuple (F v :: vs)
  | v => v

end Value

namespace Action

/-- Asks how the action went, and maps the value of a success. -/
def mapped (F : Value ω → Value ω) (x : Action ω σ (Outcome ω)) : Action ω σ (Outcome ω) := do
  let a ← x
  if ← a.succeeded then return .ok (F (← a.value)) else return a

variable {F G : Value ω → Value ω} {x y : Action ω σ (Outcome ω)} {seen : Value ω → γ}

theorem mapped_congr (h : x c = y c) : x.mapped F c = y.mapped F c := bind_congr_left h

theorem mapped_bind {α : Type} (x : Action ω σ α) (k : α → Action ω σ (Outcome ω)) :
    (x >>= k).mapped F = x >>= fun a => (k a).mapped F := bind_assoc ..

theorem mapped_mapped (x : Action ω σ (Outcome ω)) : (x.mapped F).mapped G = x.mapped (G ∘ F) := by
  unfold mapped
  rw [bind_assoc]
  refine congrArg _ (funext fun a => ?_)
  rcases ha : a.succeeded with g | _ | _
  · rfl
  · simp [ha]
  · rcases a.value with g | v
    · rfl
    · simp

theorem inStep_mapped (x : Action ω σ (Outcome ω)) :
    InStep c seen (Outcome.Mapped F Eq) (x.mapped id) (x.mapped F) :=
  .after fun _ => .ifSucceeded
    (fun _ => .ask fun v _ => .pure (.success (v := v) rfl rfl rfl rfl))
    fun ha => .pure (.failure ha ha rfl)

end Action

namespace Parser

open ParserAlgebra.Action

variable {p q sep : Parser ω} {f g gf : Mapping ω} {F G : Value ω → Value ω}
  {x item : Action ω σ (Outcome ω)} {seen : Value ω → γ}

theorem run_map_of_total (hf : f.Total cb c F) (p : Parser ω) :
    (map p f).run cb c = (p.run cb).mapped F c := by
  rw [run]
  refine bind_congr_of_ensures (.any _) fun a _ => funext fun s => ?_
  rcases a.succeeded with g | _ | _
  · rfl
  · rfl
  · rcases a.value with g | v
    · rfl
    · simp [bind_apply, map_apply, hf v]

/-! ## Repetitions -/

/-- A repetition asks a success for its value in any case. -/
theorem looped_mapped_id (hx : x.Valued c) {ch : Level.Channel} {message : String} :
    ∀ {n : Nat} {done : List (Value ω)},
      looped ch message x n done c = looped ch message (x.mapped id) n done c
  | 0, _ => rfl
  | n + 1, done => by
    rw [looped, looped]
    refine bind_congr_of_ensures (.any save) fun m _ => ?_
    rw [mapped, bind_assoc]
    refine bind_congr_of_ensures hx fun a ha => ?_
    rcases hs : a.succeeded with g | _ | _
    · rfl
    · simp [hs]
    · obtain ⟨v, hv⟩ := ha hs
      simp only [hv, monadLift_ok, pure_bind, if_true, id_eq, Outcome.succeeded_ok, Outcome.value_ok]
      exact bind_congr_of_ensures (.any _) fun _ _ => looped_mapped_id hx

/-- Over attempts in step, of which the values of the second ones are mapped, repetitions gather lists in
step. -/
theorem inStep_looped_of_mapped {y : Action ω σ (Outcome ω)} {R : Outcome ω → Outcome ω → Prop}
    (hx : x.Valued c) (hxy : InStep c seen (Outcome.Mapped F R) (x.mapped id) y)
    {ch ch' : Level.Channel} {message message' : String} (n : Nat) (done : List (Value ω)) :
    InStep c seen (fun vs ws => ws = vs.map F) (looped ch message x n done)
      (looped ch' message' y n (done.map F)) :=
  .congr_left (looped_mapped_id hx) (inStep_looped hxy n done)

/-- The names in their messages are all that the parsers differ in. -/
theorem inStep_retarget {name name' : String} {from' target : Declared ω} (a : Outcome ω) :
    InStep (σ := σ) c Value.kindOf (fun a b => a = b ∧ a.succeeded = .ok false)
      (retarget cb name from' target a) (retarget cb name' from' target a) := by
  refine .ask fun k _ => ?_
  split
  · exact .ask fun e _ => .ask fun said _ => .fault rfl
  · exact .ask fun e _ => .after fun e' => .ask fun pos _ => .pure ⟨rfl, rfl⟩

section Valued

variable (hf : f.Total cb c F) (hp : (p.run cb).Valued c)

include hf

theorem inStep_run_map : InStep c seen (Outcome.Mapped F Eq) ((p.run cb).mapped id)
    ((map p f).run cb) := .congr_right (run_map_of_total hf p) (inStep_mapped (p.run cb))

include hp

theorem inStep_many : InStep c seen (Outcome.Mapped (Value.onItems F) Eq) ((many p).run cb)
    ((many (map p f)).run cb) := by
  rw [run, run, repeated_eq_looped, repeated_eq_looped]
  refine .bind (inStep_looped_of_mapped hp (inStep_run_map hf) _ _) fun vs ws hws => ?_
  exact .pure (.success rfl rfl rfl (by rw [hws]; rfl))

/-- What a first part that is mapped makes way for is compared with what its unmapped value does. -/
theorem inStep_bind_map {α β : Type} {P : α → β → Prop} {k k' : Outcome ω → Action ω σ α}
    {l l' : Outcome ω → Action ω σ β}
    (hsuccess : ∀ a v, a.value = .ok v → InStep c seen P (k a) (l (.ok (F v))))
    (hfailure : ∀ a, a.succeeded = .ok false → InStep c seen P (k' a) (l' a)) :
    InStep c seen P (do let a ← p.run cb; if ← a.succeeded then k a else k' a)
      (do let a ← (map p f).run cb; if ← a.succeeded then l a else l' a) := by
  refine .congr_right (bind_congr_left (run_map_of_total hf p)) ?_
  rw [mapped, bind_assoc]
  refine .after_ensures hp fun a ha => ?_
  rcases hs : a.succeeded with g | _ | _
  · exact fun s => .raised rfl (.refl s)
  · simpa [hs] using hfailure a hs
  · obtain ⟨v, hv⟩ := ha hs
    simpa [hv] using hsuccess a v hv

theorem inStep_sepBy1 : InStep c seen (Outcome.Mapped (Value.onItems F) Eq) ((sepBy1 p sep).run cb)
    ((sepBy1 (map p f) sep).run cb) := by
  rw [run, run]
  refine inStep_bind_map hf hp (fun a v hv => ?_) fun a ha => .pure (.failure ha ha rfl)
  have hround : (pairing (p.run cb) (sep.run cb)).Valued c :=
    .bind (.any _) fun a _ => .ifSucceeded lenient_any (fun _ => hp)
      fun ha => .pure fun h => by cases ha.symm.trans h
  have hitem : InStep c seen (Outcome.Mapped F Eq) ((p.run cb).mapped id) ((map p f).run cb) :=
    inStep_run_map hf
  have hattempt : InStep c seen (Outcome.Mapped F Eq)
      ((pairing (p.run cb) (sep.run cb)).mapped id) (pairing ((map p f).run cb) (sep.run cb)) := by
    unfold pairing
    rw [mapped, bind_assoc]
    refine .after fun a => ?_
    rcases hs : a.succeeded with g | _ | _
    · exact fun s => .raised rfl (.refl s)
    · simpa [hs] using InStep.pure (.failure hs hs rfl)
    · simpa [mapped] using hitem
  simp only [hv, separated_eq_looped, monadLift_ok, pure_bind, Outcome.value_ok]
  refine .bind (inStep_looped_of_mapped hround hattempt _ [v]) fun vs ws hws => ?_
  exact .pure (.success rfl rfl rfl (by rw [hws]; rfl))

theorem inStep_seq : InStep c Value.kindOf (Outcome.Mapped (Value.onFirst F) Eq)
    ((seq p q).run cb) ((seq (map p f) q).run cb) := by
  have hfailed {a b : Outcome ω} (h : a = b ∧ a.succeeded = .ok false) :
      a.Mapped (Value.onFirst F) Eq b := .failure h.2 (h.1 ▸ h.2) h.1
  rw [run, run]
  refine inStep_bind_map hf hp (fun a v hv => ?_) fun a _ => (inStep_retarget a).mono fun _ _ => hfailed
  refine .after fun b => .ifSucceeded (fun _ => ?_) fun _ => (inStep_retarget b).mono fun _ _ => hfailed
  simp only [hv, monadLift_ok, pure_bind, Outcome.value_ok]
  exact .ask fun w _ => .pure (.success rfl rfl rfl rfl)

end Valued

/-! ## Choices, defaults and other functions -/

/-- A success is mapped before the choice to keep it or behind that choice. -/
theorem inStep_orElse (hf : f.Total cb c F) {k l : Outcome ω → Action ω σ (Outcome ω)}
    (h : ∀ a, a.succeeded = .ok false → InStep c seen Eq ((k a).mapped F) (l a)) :
    InStep c seen Eq (mapped F (do let a ← p.run cb; if ← a.succeeded then return a else k a))
      (do let a ← (map p f).run cb; if ← a.succeeded then return a else l a) := by
  refine .congr_right (bind_congr_left (run_map_of_total hf p)) ?_
  rw [mapped_bind]
  conv => rhs; rw [mapped, bind_assoc]
  refine .after fun a => ?_
  rw [mapped_bind]
  rcases hs : a.succeeded with g | _ | _
  · exact fun s => .raised rfl (.refl s)
  · simpa [hs] using h a hs
  · simp only [mapped, hs, monadLift_ok, pure_bind, if_true]
    rcases a.value with g | v
    · exact fun s => .raised rfl (.refl s)
    · simpa using InStep.pure rfl

theorem inStep_option (hf : f.Total cb c F) (p : Parser ω) (d : Value ω) :
    InStep c seen Eq ((map (option d p) f).run cb) ((option (F d) (map p f)).run cb) := by
  refine .congr_left (run_map_of_total hf _) ?_
  rw [run, run, mapped_bind]
  refine .after fun m => inStep_orElse hf fun a _ => ?_
  rw [mapped_bind]
  exact .after fun _ => .pure rfl

theorem inStep_alt (hf : f.Total cb c F) (p q : Parser ω) :
    InStep c Value.kindOf Eq ((map (alt p q) f).run cb) ((alt (map p f) (map q f)).run cb) := by
  refine .congr_left (run_map_of_total hf _) ?_
  rw [run, run, mapped_bind]
  refine .after fun m => inStep_orElse hf fun a _ => ?_
  rw [mapped_bind]
  refine .after fun _ => inStep_orElse hf fun b _ => ?_
  rw [mapped_bind]
  refine .after fun _ => ?_
  rw [mapped, ← bind_pure (retarget cb (map q f).name _ _ b)]
  refine .bind (inStep_retarget b) fun a' b' ⟨hab, hfail⟩ => ?_
  simpa [hfail] using InStep.pure hab

theorem map_map (hf : f.Total cb c F) (hg : g.Total cb c G) (hgf : gf.Total cb c (G ∘ F))
    (p : Parser ω) : (map (map p f) g).run cb c = (map p gf).run cb c :=
  calc (map (map p f) g).run cb c
      = ((map p f).run cb).mapped G c := run_map_of_total hg _
    _ = ((p.run cb).mapped F).mapped G c := mapped_congr (run_map_of_total hf p)
    _ = (p.run cb).mapped (G ∘ F) c := by rw [mapped_mapped]
    _ = (map p gf).run cb c := (run_map_of_total hgf p).symm

/-! ## The laws together -/

/-- The laws for a function `f` that makes `F v` of a value `v`: with a repetition of `p`, also between
separators `sep`, with `d` in place of a failure, with `q` as another choice or as the next part, and with
another function `g` after it, in place of which `gf` does both. A repetition and a sequence ask for values at
other moments than `f` does, so there `p` must have one for each of its successes. -/
structure Natural (cb : Callbacks ω σ) (c : Context ω) (p q sep : Parser ω) (f g gf : Mapping ω)
    (F : Value ω → Value ω) (d : Value ω) : Prop where
  many : (p.run cb).Valued c → InStep c Value.kindOf (Outcome.Mapped (Value.onItems F) Eq) ((many p).run cb)
    ((many (map p f)).run cb)
  sepBy1 : (p.run cb).Valued c → InStep c Value.kindOf (Outcome.Mapped (Value.onItems F) Eq)
    ((sepBy1 p sep).run cb) ((sepBy1 (map p f) sep).run cb)
  option : InStep c Value.kindOf Eq ((map (option d p) f).run cb) ((option (F d) (map p f)).run cb)
  alt_built : ∀ s t : State ω σ, mkAlt (map p f) (map q f) c s =
    (.returned (alt (map p f) (map q f)), t) ↔ mkAlt p q c s = (.returned (alt p q), t)
  alt : InStep c Value.kindOf Eq ((map (alt p q) f).run cb) ((alt (map p f) (map q f)).run cb)
  seq_built : ∀ s t : State ω σ, mkSeq (map p f) q c s = (.returned (seq (map p f) q), t) ↔
    mkSeq p q c s = (.returned (seq p q), t)
  seq : (p.run cb).Valued c → InStep c Value.kindOf (Outcome.Mapped (Value.onFirst F) Eq) ((seq p q).run cb)
    ((seq (map p f) q).run cb)
  map : (map (map p f) g).run cb c = (map p gf).run cb c

/-- The laws hold for all parsers and all functions, whatever values these make. -/
theorem natural (hf : f.Total cb c F) (hg : g.Total cb c G) (hgf : gf.Total cb c (G ∘ F))
    (p q sep : Parser ω) (d : Value ω) : Natural cb c p q sep f g gf F d where
  many := inStep_many hf
  sepBy1 := inStep_sepBy1 hf
  option := inStep_option hf p d
  alt_built s t := by simp only [mkAlt_returned, declares]
  alt := inStep_alt hf p q
  seq_built s t := by simp only [mkSeq_returned, declares]
  seq := inStep_seq hf
  map := map_map hf hg hgf p

end Parser

namespace Maker

theorem host_valued {c : Context Maker} : host.Valued c := by
  have hplain (k : Kind) (hk : k = .parser ∨ k = .noneType) :
      ¬ (k.isA .ok = true ∨ k.isA .err = true) := by
    rcases hk with rfl | rfl <;> decide
  refine ⟨fun _ f v => .bind (.any _) fun p _ => .pure fun h => ?_, fun _ f => .pure fun h => ?_⟩
  · exact absurd h (hplain _ (.inl rfl))
  · exact absurd h (hplain _ (.inr rfl))

end Maker

/-- A function that makes a parser of a span, and one that makes nothing of it. -/
theorem Parser.natural_again :
    let c : Context Maker := ⟨.empty, {}, .warning⟩
    let cb := Maker.host.callbacks 3 1
    let f : Mapping Maker := .function .again
    let F (v : Value Maker) : Value Maker := .host (.parser (.take (Maker.literal v)))
    f.Total cb c F ∧ Mapping.discard.Total cb c (fun _ => .none) ∧ ((take "a").run cb).Valued c ∧
      Natural cb c (take "a") whitespace (take ",") f .discard .discard F (.bool false) := by
  intro c cb f F
  have hf : f.Total cb c F := fun _ _ => rfl
  have hdiscard : Mapping.discard.Total cb c fun _ => .none := fun _ _ => rfl
  have hp : ((take "a").run cb).Valued c := valued_run (Maker.host_valued.callbacks 1) _
  exact ⟨hf, hdiscard, hp, natural hf hdiscard hdiscard (take "a") whitespace (take ",") (.bool false)⟩

/-- An object that passes for a success and has no value: it is not missed where the next part fails or the
repetition stands still, but a function is to be applied to it before. -/
theorem Parser.seq_unnatural :
    let kind : Kind := .mk "Y" 1 [.valueError, .ok]
    let e : Value Maker := (Fault.noAttribute (.aValue kind.label) "value").exception
    Kind.derive? "Y" 1 [.valueError, .ok] = some kind ∧ e.kindOf = .attributeError ∧
      ∃ v, Value.construct kind [.str "a"] = .ok v ∧
        let cb : Callbacks Maker Unit :=
          { Maker.host.callbacks 2 1 with step := fun _ => Pure.pure v }
        let c : Context Maker := ⟨.empty, {}, .warning⟩
        let s : State Maker Unit := ⟨.ofList [], [], ()⟩
        let p : Parser Maker := .function "p" .undeclared .again
        let q : Parser Maker := .fail (.str "x")
        Mapping.discard.Total cb c (fun _ => .none) ∧
          (seq p q).run cb c s = (.returned (.err (.str "x") (.int 0)), s) ∧
          (seq (map p .discard) q).run cb c s = (.raised e, s) ∧
          (∃ u, (many p).run cb c s = (.raised (Fault.notAdvancing "0").exception, u)) ∧
          (many (map p .discard)).run cb c s = (.raised e, s) := by
  intro kind e
  refine ⟨rfl, rfl, _, rfl, ?_⟩
  intro cb c s p q
  have hsaid : s.cursor.toMark.value.text? = .ok "0" :=
    Mark.text?_mk (lt_writeLimit (n := 0) (by decide))
  obtain ⟨x, u, htells, hmany⟩ : ∃ x u, TellsOf s.cursor.toMark x ∧ (many p).run cb c s = (.raised x, u) :=
    run_many_of_still rfl rfl rfl rfl (by decide)
  rw [htells "0" hsaid] at hmany
  exact ⟨fun _ _ => rfl, rfl, rfl, ⟨u, hmany⟩, rfl⟩

end ParserAlgebra
