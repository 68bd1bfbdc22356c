import ParserAlgebra.Proofs.Honest

/-!
# Words, blanks and literals

The parsers of words, of blanks and of literals are honest, whatever the conversions are.
-/

namespace ParserAlgebra

namespace Parser

variable {ω σ : Type} [HostObject ω] {cb : Callbacks ω σ} {c : Context ω} {R : Value ω → Prop}

omit [HostObject ω] in
theorem ensures_skipRun (p : Char → Bool) :
    (skipRun p : Action ω σ Nat).Ensures c (fun _ => True) R := by
  unfold skipRun
  refine .bind .cursor fun d _ => ?_
  dsimp only
  split
  · exact .bind (.setCursor _) fun _ _ => .pure trivial
  · exact .pure trivial

theorem honest_word : Honest cb c word .wordError := by
  refine ⟨rfl, by decide, ?_⟩
  rw [run]
  refine .bind .cursor fun d _ => .bind (ensures_skipRun _) fun n _ => ?_
  split
  · exact .pure (Outcome.failsAs_err ⟨Kind.isA_refl _, by rfl⟩)
  · exact .pure (Outcome.failsAs_of_succeeded rfl)

theorem honest_whitespace : Honest cb c whitespace .infallible := by
  refine honest_of_succeeds rfl (by decide) ?_
  rw [run]
  exact .bind (ensures_skipRun _) fun n _ => .pure rfl

theorem honest_take (literal : String) : Honest cb c (take literal) .takeError := by
  refine ⟨rfl, by decide, ?_⟩
  rw [run]
  refine .bind .cursor fun d _ => ?_
  dsimp only
  split
  · exact .bind (.setCursor _) fun _ _ => .pure (Outcome.failsAs_of_succeeded rfl)
  · exact .pure (Outcome.failsAs_err ⟨Kind.isA_refl _, by rfl⟩)

end Parser

end ParserAlgebra
