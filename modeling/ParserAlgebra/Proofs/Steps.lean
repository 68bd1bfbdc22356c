import ParserAlgebra.Proofs.Ensures

/-!
# Where a run goes

What a combinator does once it is known how its parts went: it goes on with the next part from where
the last one left the cursor, or hands an outcome on, or converts the error of a failure.
-/

namespace ParserAlgebra.Parser

open ParserAlgebra.Action

variable {ω σ : Type} [HostObject ω] {cb : Callbacks ω σ} {c : Context ω} {p q : Parser ω}
  {a b : Outcome ω} {s t u : State ω σ}

section Failed

variable (h : p.run cb c s = (.returned a, t)) (ha : a.succeeded = .ok false)

include h ha

theorem run_seq_of_failed :
    (seq p q).run cb c s = retarget cb p.name p.declares (seq p q).declares a c t := by
  rw [run, bind_apply, h]
  simp [ha, declares]

theorem run_bind_of_failed {next : ω} :
    (bind p next).run cb c s = retarget cb p.name p.declares (bind p next).declares a c t := by
  rw [run, bind_apply, h]
  simp [ha, declares]

theorem run_refine_of_failed {f : ω} {err : Declared ω} :
    (refine p f err).run cb c s =
      retarget cb p.name p.declares (refine p f err).declares a c t := by
  rw [run, bind_apply, h]
  simp [ha, declares]

theorem run_convert_of_failed {target : Declared ω} :
    (convert p target).run cb c s = retarget cb p.name p.declares target a c t := by
  rw [run, bind_apply, h]
  simp [ha]

theorem run_map_of_failed {f : Mapping ω} : (map p f).run cb c s = (.returned a, t) := by
  rw [run, bind_apply, h]
  simp [ha]

/-- The second alternative is tried from the start, but with what the first one wrote and changed. -/
theorem run_alt_of_failed (hq : q.run cb c (t.backTo s.cursor.toMark) = (.returned b, u))
    (hb : b.succeeded = .ok true) : (alt p q).run cb c s = (.returned b, u) := by
  rw [run, bind_apply, save_apply]
  simp [bind_apply, h, ha, hq, hb]

theorem run_alt_of_both_failed (hq : q.run cb c (t.backTo s.cursor.toMark) = (.returned b, u))
    (hb : b.succeeded = .ok false) :
    (alt p q).run cb c s = retarget cb q.name q.declares (alt p q).declares b c
      (u.backTo s.cursor.toMark) := by
  rw [run, bind_apply, save_apply]
  simp [bind_apply, h, ha, hq, hb, declares]

end Failed

section Succeeded

variable (h : p.run cb c s = (.returned a, t)) (ha : a.succeeded = .ok true)

include h ha

theorem run_alt_of_succeeded : (alt p q).run cb c s = (.returned a, t) := by
  rw [run, bind_apply, save_apply]
  simp [bind_apply, h, ha]

theorem run_convert_of_succeeded {target : Declared ω} :
    (convert p target).run cb c s = (.returned a, t) := by
  rw [run, bind_apply, h]
  simp [ha]

theorem run_map_of_succeeded {f : Mapping ω} {v : Value ω} (hv : a.value = .ok v) :
    (map p f).run cb c s = (do return Outcome.ok (← f.apply cb v) : Action ω σ (Outcome ω)) c t := by
  rw [run, bind_apply, h]
  simp [ha, hv]

theorem run_seq_of_second_failed (hq : q.run cb c t = (.returned b, u))
    (hb : b.succeeded = .ok false) :
    (seq p q).run cb c s = retarget cb q.name q.declares (seq p q).declares b c u := by
  rw [run, bind_apply, h]
  simp [ha, bind_apply, hq, hb, declares]

theorem run_seq_of_both_succeeded {v w : Value ω} (hv : a.value = .ok v)
    (hq : q.run cb c t = (.returned b, u)) (hb : b.succeeded = .ok true) (hw : b.value = .ok w) :
    (seq p q).run cb c s = (.returned (.ok (.tuple [v, w])), u) := by
  rw [run, bind_apply, h]
  simp [ha, bind_apply, hq, hb, hv, hw]

/-- The parser that was made is run where the first one left the cursor. -/
theorem run_bind_of_second_failed {next : ω} {v w : Value ω} {t' : State ω σ}
    (hv : a.value = .ok v) (hw : cb.call next v c t = (.returned w, t'))
    (hq : (Operand.ofValue cb.operand w).toParser none = .ok q)
    (ho : cb.resume q c t' = (.returned b, u)) (hb : b.succeeded = .ok false) :
    (bind p next).run cb c s =
      retarget cb q.name q.declares (bind p next).declares b c u := by
  rw [run, bind_apply, h]
  simp [ha, hv, bind_apply, hw, hq, ho, hb, declares]

/-- What is caught of the evaluation of a function that may fail becomes the failure of the parser. -/
theorem run_refine_of_caught {f : ω} {err : Declared ω} {e : Value ω}
    (hf : (do cb.call f (← a.value) : Action ω σ (Value ω)) c t = (.raised e, u))
    (he : err.catches e.kindOf = true) :
    (refine p f err).run cb c s =
      (do return Outcome.failedAt (← Conversion.coerce cb e (refine p f err).declares) (← save) :
        Action ω σ (Outcome ω)) c u := by
  have hcaught : catching (fun e => err.catches e.kindOf) (do cb.call f (← a.value)) c t =
      (.returned (.error e), u) := by
    unfold catching
    rw [hf]
    simp [he]
  rw [run, bind_apply, h]
  simp only [ha, monadLift_ok, pure_bind, if_true]
  rw [bind_apply, hcaught]
  rfl

theorem run_refine_of_raised {f : ω} {err : Declared ω} {v e : Value ω} (hv : a.value = .ok v)
    (hf : cb.call f v c t = (.raised e, u)) (he : err.catches e.kindOf = true) :
    (refine p f err).run cb c s =
      (do return Outcome.failedAt (← Conversion.coerce cb e (refine p f err).declares) (← save) :
        Action ω σ (Outcome ω)) c u :=
  run_refine_of_caught h ha (by rw [hv]; exact hf) he

theorem run_refine_of_returned {f : ω} {err : Declared ω} {v w : Value ω} (hv : a.value = .ok v)
    (hf : cb.call f v c t = (.returned w, u)) :
    (refine p f err).run cb c s = refined cb (refine p f err).declares w c u := by
  rw [run, bind_apply, h]
  simp [ha, hv, bind_apply, catching, hf, declares]

end Succeeded

section Raised

variable {e : Value ω} (h : p.run cb c s = (.raised e, t))

include h

theorem run_map_of_raised {f : Mapping ω} : (map p f).run cb c s = (.raised e, t) := by
  rw [run, bind_apply, h]

theorem run_alt_of_raised : (alt p q).run cb c s = (.raised e, t) := by
  rw [run, bind_apply, save_apply]
  simp [bind_apply, h]

theorem run_rewind_of_raised : (rewind p).run cb c s = (.raised e, t) := by
  rw [run, bind_apply, save_apply]
  simp [bind_apply, h]

theorem run_sepBy1_of_raised : (sepBy1 p q).run cb c s = (.raised e, t) := by
  rw [run, runSepBy1, bind_apply, h]

theorem run_traced_of_raised {label : String} {r : State ω σ}
    (hr : runTrace label c r = (.returned (), s)) :
    (traced label p).run cb c r = (.raised e, t) := by
  rw [run, bind_apply, hr]
  simp [bind_apply, h]

end Raised

section EndOfInput

theorem run_eof_of_atEnd (h : s.cursor.atEnd = true) :
    eof.run cb c s = (.returned (.ok .none), s) := by
  rw [run, Action.bind_apply, Action.cursor_apply]
  dsimp only
  rw [if_pos h]
  rfl

/-- Before the end the input that is left is told of, as far as that can be done. -/
theorem run_eof_of_not_atEnd (h : ¬ s.cursor.atEnd = true) : eof.run cb c s =
    match Preview.leftover c.settings s.cursor with
    | .ok found => (.returned (.failedAt (.leftOver found) s.cursor.toMark), s)
    | .error f => (.raised f.exception, s) := by
  rw [run, Action.bind_apply, Action.cursor_apply]
  dsimp only
  rw [if_neg h, Action.bind_apply, Action.context_apply]
  dsimp only
  rw [Action.bind_apply]
  rcases Preview.leftover c.settings s.cursor with f | found <;> rfl

end EndOfInput

section Take

variable {literal : String}

theorem run_take_of_append {rest : List Char} (hs : s.cursor.rest = literal.toList ++ rest) :
    (take literal).run cb c s = (.returned (.ok (s.cursor.spanTo (s.cursor.pos + literal.length))),
      s.backTo { pos := s.cursor.pos + literal.length }) := by
  have hstarts : s.cursor.startsWith literal.toList = true := by simp [Cursor.startsWith, hs]
  rw [run, Action.bind_apply, Action.cursor_apply]
  dsimp only
  rw [if_pos hstarts]
  rfl

theorem run_take_of_not_isPrefix (hs : ¬ literal.toList <+: s.cursor.rest) : (take literal).run cb c s =
    (.returned (.failedAt
      (.takeError literal (if s.cursor.remaining < literal.length then .noSpace else .noMatch))
      s.cursor.toMark), s) := by
  have hstarts : ¬ s.cursor.startsWith literal.toList = true := by
    rwa [Cursor.startsWith, List.isPrefixOf_iff_prefix]
  rw [run, Action.bind_apply, Action.cursor_apply]
  dsimp only
  rw [if_neg hstarts]
  rfl

variable {x : Char} (hx : literal.toList = [x])

include hx

theorem run_take_of_rest {rest : List Char} (hs : s.cursor.rest = x :: rest) :
    (take literal).run cb c s = (.returned (.ok (s.cursor.spanTo (s.cursor.pos + 1))),
      s.backTo { pos := s.cursor.pos + 1 }) := by
  have hlength : literal.length = 1 := by rw [← String.length_toList, hx]; rfl
  have happend : s.cursor.rest = literal.toList ++ rest := by rw [hs, hx]; rfl
  rw [run_take_of_append happend, hlength]

/-- A character that does not come next is missing at the end of the input, or does not match. -/
theorem run_take_of_ne (hs : ∀ rest, s.cursor.rest ≠ x :: rest) : (take literal).run cb c s =
    (.returned (.failedAt (.takeError literal (if s.cursor.atEnd then .noSpace else .noMatch))
      s.cursor.toMark), s) := by
  have hlength : literal.length = 1 := by rw [← String.length_toList, hx]; rfl
  have hprefix : ¬ literal.toList <+: s.cursor.rest := by
    rw [hx]
    rintro ⟨rest, hrest⟩
    exact hs rest hrest.symm
  have hspace : (s.cursor.remaining < 1) = (s.cursor.atEnd = true) := by
    simp [Cursor.remaining, Cursor.atEnd, Nat.sub_eq_zero_iff_le]
  rw [run_take_of_not_isPrefix hprefix]
  simp only [hlength, hspace]

end Take

end ParserAlgebra.Parser
