import ParserAlgebra.Proofs.AssignmentParts
import ParserAlgebra.Proofs.Building
import ParserAlgebra.Proofs.Combinators
import ParserAlgebra.Proofs.Conversions
import ParserAlgebra.Proofs.Steps

/-!
# A choice among many

A choice is built from the left, and a failure of two alternatives together is the second one's,
converted. So the error of every alternative between the first and the one that succeeds is
converted before the next one is tried, although nothing comes of it. The first alternative that
succeeds decides a choice exactly if all these conversions return, and otherwise the choice ends as
the first of them that does not (`Parser.run_choice`).
-/

namespace ParserAlgebra

variable {ω σ : Type} [HostObject ω] {cb : Callbacks ω σ} {c : Context ω}

def Answer.isReturned {α : Type} : Answer ω α → Bool
  | returned _ => true
  | _ => false

namespace Parser

variable {p q r acc : Parser ω} {ps : List (Parser ω)} {a b : Outcome ω} {s t u v : State ω σ}
  {m : Mark ω}

/-- From the state `s` the parsers fail in turn, each of them at the mark `m`, and `u` is left. The
first argument is what is declared so far, if there were parsers before; `xs` tells how it went to
convert the errors of all but the very first parser into what is declared so far. -/
inductive FailsInTurn (cb : Callbacks ω σ) (c : Context ω) (m : Mark ω) :
    Option (Declared ω) → State ω σ → List (Parser ω) → List (Answer ω (Outcome ω)) →
      State ω σ → Prop
  | nil {d s} : FailsInTurn cb c m d s [] [] s
  | first {s p a t ps xs u} (h : p.run cb c s = (.returned a, t)) (ha : a.succeeded = .ok false)
      (hps : FailsInTurn cb c m (some p.declares) (t.backTo m) ps xs u) :
      FailsInTurn cb c m none s (p :: ps) xs u
  | next {d s p a t x v ps xs u} (h : p.run cb c s = (.returned a, t))
      (ha : a.succeeded = .ok false)
      (hx : retarget cb p.name p.declares (Registry.joined d p.declares) a c (t.backTo m) = (x, v))
      (hps : FailsInTurn cb c m (some (Registry.joined d p.declares)) (v.backTo m) ps xs u) :
      FailsInTurn cb c m (some d) s (p :: ps) (x :: xs) u

/-- What was converted is a failure. -/
theorem ensures_retarget_failed (name : String) (source target : Declared ω) (res : Outcome ω) :
    (retarget cb name source target res).Ensures c (fun b => b.succeeded = .ok false)
      fun _ => True := by
  unfold retarget
  refine .bind (.any _) fun k _ => ?_
  split
  · exact .bind (.any _) fun e _ => .bind (.any _) fun said _ => .fault trivial
  · exact .bind (.any _) fun e _ => .bind (.any _) fun v _ => .bind (.any _) fun x _ => .pure rfl

theorem run_foldl_alt_of_succeeded (h : acc.run cb c s = (.returned a, t))
    (ha : a.succeeded = .ok true) : (ps.foldl alt acc).run cb c s = (.returned a, t) := by
  induction ps generalizing acc with
  | nil => exact h
  | cons q qs ih => exact ih (run_alt_of_succeeded h ha)

/-- What does not return is not followed by another alternative. -/
theorem run_foldl_alt_of_not_returned {x : Answer ω (Outcome ω)} (hx : x.isReturned = false)
    (h : acc.run cb c s = (x, t)) : (ps.foldl alt acc).run cb c s = (x, t) := by
  induction ps generalizing acc with
  | nil => exact h
  | cons q qs ih =>
    refine ih ?_
    rw [run, Action.bind_apply, Action.save_apply]
    rcases x with x | x | _
    · cases hx
    · simp [Action.bind_apply, h]
    · simp [Action.bind_apply, h]

namespace FailsInTurn

variable {d : Option (Declared ω)} {xs : List (Answer ω (Outcome ω))}

/-- If every conversion returns, the alternatives together fail. -/
theorem run_foldl_alt (h : FailsInTurn cb c s.cursor.toMark d t ps xs u)
    (hd : d = some acc.declares) (hacc : acc.run cb c s = (.returned a, v))
    (ha : a.succeeded = .ok false) (ht : t = v.backTo s.cursor.toMark)
    (hxs : ∀ x ∈ xs, x.isReturned = true) :
    ∃ b w, (ps.foldl alt acc).run cb c s = (.returned b, w) ∧ b.succeeded = .ok false ∧
      u = w.backTo s.cursor.toMark := by
  induction h generalizing acc a v with
  | nil => exact ⟨a, v, hacc, ha, ht⟩
  | first => cases hd
  | @next d t q b t' x w ps xs u hq hb hx _ ih =>
    obtain rfl := Option.some.inj hd
    have hrun := run_alt_of_both_failed hacc ha (ht ▸ hq) hb
    have hret := hxs x (List.mem_cons_self ..)
    rcases x with b' | e | _
    · refine ih rfl (hrun.trans hx) ((ensures_retarget_failed ..).returned hx) rfl ?_
      exact fun y hy => hxs y (List.mem_cons_of_mem _ hy)
    · cases hret
    · cases hret

/-- The first conversion that does not return ends the alternatives as it ends. -/
theorem run_foldl_alt_stops {x : Answer ω (Outcome ω)}
    (h : FailsInTurn cb c s.cursor.toMark d t ps xs u) (hd : d = some acc.declares)
    (hacc : acc.run cb c s = (.returned a, v)) (ha : a.succeeded = .ok false)
    (ht : t = v.backTo s.cursor.toMark) (hx : xs.find? (fun x => !x.isReturned) = some x) :
    ∃ w, (ps.foldl alt acc).run cb c s = (x, w) := by
  induction h generalizing acc a v with
  | nil => cases hx
  | first => cases hd
  | @next d t q b t' y w ps xs u hq hb hy _ ih =>
    obtain rfl := Option.some.inj hd
    have hrun := run_alt_of_both_failed hacc ha (ht ▸ hq) hb
    rw [List.find?_cons] at hx
    rcases hret : y.isReturned with _ | _ <;> rw [hret] at hx
    · obtain rfl := Option.some.inj hx
      refine ⟨w, ?_⟩
      rw [List.foldl_cons]
      exact run_foldl_alt_of_not_returned hret (hrun.trans hy)
    · rcases y with b' | e | _
      · exact ih rfl (hrun.trans hy) ((ensures_retarget_failed ..).returned hy) rfl hx
      · cases hret
      · cases hret

/-- The alternative that succeeds after the others is reached exactly if every conversion returns. -/
theorem run_foldl_alt_iff {xs : List (Answer ω (Outcome ω))} {rest : List (Parser ω)}
    (h : FailsInTurn cb c s.cursor.toMark none s (acc :: ps) xs u)
    (hq : q.run cb c u = (.returned b, v)) (hb : b.succeeded = .ok true) :
    (((ps ++ q :: rest).foldl alt acc).run cb c s = (.returned b, v) ↔
      ∀ x ∈ xs, x.isReturned = true) ∧
    ∀ x, xs.find? (fun x => !x.isReturned) = some x →
      (((ps ++ q :: rest).foldl alt acc).run cb c s).1 = x := by
  obtain _ | ⟨hacc, ha, hps⟩ := h
  rw [List.foldl_append, List.foldl_cons]
  have hstop {x : Answer ω (Outcome ω)} (hx : xs.find? (fun x => !x.isReturned) = some x) :
      ((rest.foldl alt (alt (ps.foldl alt acc) q)).run cb c s).1 = x := by
    obtain ⟨w, hw⟩ := hps.run_foldl_alt_stops rfl hacc ha rfl hx
    have hxr : x.isReturned = false := by simpa using List.find?_some hx
    have hrun : (rest.foldl alt (alt (ps.foldl alt acc) q)).run cb c s = (x, w) := by
      rw [← List.foldl_cons]
      exact run_foldl_alt_of_not_returned hxr hw
    rw [hrun]
  refine ⟨⟨fun hrun x hx => ?_, fun hxs => ?_⟩, fun x => hstop⟩
  · rcases hxr : x.isReturned with _ | _
    · have hsome : (xs.find? fun x => !x.isReturned).isSome = true :=
        List.find?_isSome.2 ⟨x, hx, by simp [hxr]⟩
      obtain ⟨y, hy⟩ := Option.isSome_iff_exists.1 hsome
      have hyr := List.find?_some hy
      have hby : .returned b = y := by rw [← hstop hy, hrun]
      subst hby
      cases hyr
    · rfl
  · obtain ⟨a', w, hrun, ha', rfl⟩ := hps.run_foldl_alt rfl hacc ha rfl hxs
    exact run_foldl_alt_of_succeeded (run_alt_of_failed hrun ha' hq hb) hb

end FailsInTurn

/-- The alternatives before one that succeeds have failed in turn. The choice is that success exactly
if the errors of those between the first and it are converted, and else ends as the first conversion
that does not return. -/
theorem run_choice {os : List (Operand ω)} {c₀ : Context ω} {s₀ t₀ : State ω σ}
    {rest : List (Parser ω)} {xs : List (Answer ω (Outcome ω))}
    (hr : mkChoice os c₀ s₀ = (.returned r, t₀)) (hos : Adapted os (ps ++ q :: rest))
    (hps : FailsInTurn cb c s.cursor.toMark none s ps xs u)
    (hq : q.run cb c u = (.returned b, v)) (hb : b.succeeded = .ok true) :
    (r.run cb c s = (.returned b, v) ↔ ∀ x ∈ xs, x.isReturned = true) ∧
      ∀ x, xs.find? (fun x => !x.isReturned) = some x → (r.run cb c s).1 = x := by
  rcases os with _ | ⟨o, os⟩
  · rcases ps with _ | ⟨p, ps⟩ <;> cases hos
  · obtain ⟨p, ps', ho, hps', -, rfl, -⟩ := mkChoice_returned.1 hr
    have hall := Adapted.unique (.cons ho hps') hos
    rcases ps with _ | ⟨p', ps⟩
    · obtain ⟨rfl, rfl⟩ := List.cons.inj hall
      cases hps
      simp [run_foldl_alt_of_succeeded hq hb]
    · obtain ⟨rfl, rfl⟩ := List.cons.inj hall
      exact hps.run_foldl_alt_iff hq hb

/-- The error of a literal is converted into the one of a word before blanks are tried. -/
theorem run_choice_of_blank :
    let cb := Assignment.host.callbacks 1 1
    let c : Context Assignment.Function := ⟨Assignment.registry, {}, .warning⟩
    let s : State Assignment.Function Unit := ⟨.ofList [' '], [], ()⟩
    let t : State Assignment.Function Unit := ⟨⟨⟨1, none⟩, [' ']⟩, [], ()⟩
    let ps : List (Parser Assignment.Function) := [Assignment.wordPart, .take "b"]
    ∃ r xs, mkChoice [.parser Assignment.wordPart, .parser (.take "b"), .parser .whitespace] c s =
        (.returned r, s) ∧ FailsInTurn cb c s.cursor.toMark none s ps xs s ∧
      Parser.whitespace.run cb c s = (.returned (.ok (.int 1)), t) ∧
      r.run cb c s = (.returned (.ok (.int 1)), t) := by
  intro cb c s t ps
  have hr : mkChoice [.parser Assignment.wordPart, .parser (.take "b"), .parser .whitespace] c s =
      (.returned (alt (alt Assignment.wordPart (take "b")) whitespace), s) := rfl
  obtain ⟨xs, hps, hxs⟩ : ∃ xs, FailsInTurn cb c s.cursor.toMark none s ps xs s ∧
      ∀ x ∈ xs, x.isReturned = true :=
    ⟨_, .first rfl rfl (.next rfl rfl rfl .nil), List.forall_mem_singleton.2 rfl⟩
  have hos : Adapted [.parser Assignment.wordPart, .parser (.take "b"), .parser .whitespace]
      (ps ++ whitespace :: []) := .cons rfl (.cons rfl (.cons rfl .nil))
  have hq : whitespace.run cb c s = (.returned (.ok (.int 1)), t) := rfl
  exact ⟨_, xs, hr, hps, hq, (run_choice hr hos hps hq rfl).1.2 hxs⟩

/-- A choice raises an exception for an error that it discards, although its last alternative
succeeds. -/
theorem choice_raises_discarded :
    let cb : Callbacks Assignment.Function Unit :=
      { Assignment.host.callbacks 1 1 with step := fun _ => Pure.pure (.err (.str "x") .none) }
    let c : Context Assignment.Function := ⟨.empty, {}, .warning⟩
    let s : State Assignment.Function Unit := ⟨.ofList [], [], ()⟩
    let undeclared : Operand Assignment.Function := .function "err" .undeclared .assignment
    ∃ r, mkChoice [.parser .word, undeclared, .parser (.pure (.int 1))] c s = (.returned r, s) ∧
      (∃ e, Parser.word.run cb c s = (.returned (.err e (.int 0)), s)) ∧
      (Parser.function "err" .undeclared .assignment).run cb c s =
        (.returned (.err (.str "x") (.int 0)), s) ∧
      (Parser.pure (.int 1)).run cb c s = (.returned (.ok (.int 1)), s) ∧
      ∃ e t, r.run cb c s = (.raised e, t) ∧ e.kindOf = .conversionError :=
  ⟨_, rfl, ⟨_, rfl⟩, rfl, rfl, _, _, rfl, rfl⟩

end Parser

end ParserAlgebra
