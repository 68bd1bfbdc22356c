import ParserAlgebra.Assignment
import ParserAlgebra.Proofs.Builtins

/-!
# The parts of an assignment

The union of the errors can be made of every error, the function that reads a number raises nothing
but the error it declares, and so the parsers of a name and of a value are built
(`Assignment.name_returned`, `Assignment.value_returned`).
-/

namespace ParserAlgebra

section Numeral

variable {ω : Type} [HostObject ω] {s : String}

theorem Value.toInteger_of_read {n : Int} (h : Numeral.read s.toList = .ok n) :
    (Value.str s : Value ω).toInteger = .ok n := by
  have hr : Numeral.readIn 10 s.toList = .ok n := h
  simp [toInteger, chars?, plain, readNumeral, hr]

theorem Value.toInteger_of_flaw {flaw : Numeral.Flaw}
    (h : Numeral.read s.toList = .error flaw) :
    ∃ said, (Value.str s : Value ω).toInteger = .error (.notANumeral 10 said flaw) := by
  have hr : Numeral.readIn 10 s.toList = .error flaw := h
  have hs : (Value.str s : Value ω).shown? = .ok (quoted s) := by simp [shown?]
  cases flaw with
  | malformed => exact ⟨quoted s, by simp [toInteger, chars?, plain, readNumeral, hr, hs]; rfl⟩
  | tooLong n => exact ⟨"", by simp [toInteger, chars?, plain, readNumeral, hr]⟩

theorem Value.kind_of_toInteger {f : Fault} (h : (Value.str s : Value ω).toInteger = .error f) :
    f.kind = .valueError := by
  rcases hr : Numeral.read s.toList with flaw | n
  · obtain ⟨said, hs⟩ := Value.toInteger_of_flaw (ω := ω) hr
    rw [hs] at h
    cases h
    rfl
  · rw [Value.toInteger_of_read hr] at h
    cases h

end Numeral

namespace Assignment

variable {ω : Type} [HostObject ω] {rounds depth : Nat} {settings : Settings Function} {threshold : Level}

omit [HostObject ω] in
theorem find?_registry {k t : Kind} {conv : Conversion ω}
    (h : (registry : Registry ω).find? k t = some conv) : t = failed ∧ conv = .wrapping := by
  obtain ⟨l, -, hl⟩ := List.exists_of_findSome?_eq_some h
  have hg : (registry : Registry ω).get? l t =
      if l = .valueError ∧ t = failed then some .wrapping
      else if l = .wordError ∧ t = failed then some .wrapping
      else if l = .takeError ∧ t = failed then some .wrapping else none := by
    simp only [registry, absorbed, List.foldl_cons, List.foldl_nil, Registry.get?_insert]
    rfl
  rw [hg] at hl
  split at hl
  · next ht => exact ⟨ht.2, (Option.some.inj hl).symm⟩
  · split at hl
    · next ht => exact ⟨ht.2, (Option.some.inj hl).symm⟩
    · split at hl
      · next ht => exact ⟨ht.2, (Option.some.inj hl).symm⟩
      · cases hl

/-- The union that is made around an error. -/
def Wraps (e cause : Value ω) : Prop := Conversion.wrap failed cause = .ok e

/-- Whatever it wraps, the union is made, and keeps what it wraps. -/
theorem exists_wraps (cause : Value ω) :
    ∃ e, Wraps e cause ∧ e.kindOf = failed ∧ e.get .cause = .ok cause := by
  have hm : Value.construct failed [cause] = .ok (.object failed .none
      (.cons .cause cause (.cons .arguments (.tuple [cause])
        (.cons .arguments (.tuple [cause]) .nil))) 0 none) := rfl
  unfold Wraps Conversion.wrap
  rw [hm]
  change ∃ v, (if failed.isException && cause.kindOf.isException then _ else _) = _ ∧ _
  split <;> exact ⟨_, rfl, rfl, rfl⟩

theorem Wraps.unique {e e' cause : Value ω} (h : Wraps e cause) (h' : Wraps e' cause) : e = e' :=
  Except.ok.inj (h.symm.trans h')

theorem Wraps.kindOf_eq {e cause : Value ω} (h : Wraps e cause) : e.kindOf = failed := by
  obtain ⟨e', h', hk, -⟩ := exists_wraps cause
  rwa [h.unique h']

theorem Wraps.get_cause {e cause : Value ω} (h : Wraps e cause) : e.get .cause = .ok cause := by
  obtain ⟨e', h', -, hc⟩ := exists_wraps cause
  rwa [h.unique h']

theorem Wraps.instance {e cause : Value ω} (h : Wraps e cause) : e.Instance failed := by
  refine ⟨?_, ?_⟩
  · rw [Value.isA, h.kindOf_eq]
    exact Kind.isA_refl _
  · rw [h.kindOf_eq]
    decide

theorem wrap_failed (e : Value ω) :
    ∃ v, Conversion.wrap failed e = .ok v ∧ v.Instance failed := by
  obtain ⟨v, hw, -⟩ := exists_wraps e
  exact ⟨v, hw, hw.instance⟩

theorem conversionsKeep : ConversionsKeep (host.callbacks rounds depth) ⟨registry, settings, threshold⟩ := by
  intro e t conv _ hf
  obtain ⟨rfl, rfl⟩ := find?_registry hf
  obtain ⟨v, hv, hI⟩ := wrap_failed e
  rw [Conversion.apply, hv]
  exact .pure hI

theorem call_number (v : Value Function) : (host.callbacks rounds depth).call .number v =
    (do return .int (← (Value.str (spanText v) : Value Function).toInteger) : Act _) := by
  cases depth <;> rfl

/-- The function that reads a number returns one, or raises the error that it declares. -/
theorem ensures_number {c : Context Function} (v : Value Function) :
    ((host.callbacks rounds depth).call .number v).Ensures c (Parser.Kept .valueError)
      (·.Instance .valueError) := by
  have hk (n : Int) : Parser.Kept .valueError (.int n : Value Function) :=
    ⟨fun h => absurd h (by simp [Value.isA, Value.kindOf]; decide),
      fun _ h => absurd h (by simp [Value.isA, Value.kindOf]; decide)⟩
  rw [call_number]
  rcases h : Numeral.read (spanText v).toList with flaw | n
  · obtain ⟨said, hs⟩ := Value.toInteger_of_flaw (ω := Function) h
    rw [hs]
    exact .fault ⟨Kind.isA_refl _, by rfl⟩
  · rw [Value.toInteger_of_read h]
    exact .pure (hk n)

/-! ## The parsers -/

/-- The parser of a word, with the union in place of its error. -/
def wordPart : Parser Function := .convert .word (.kind failed)

/-- The parser that `name` builds. -/
def namePart : Parser Function :=
  .map (.seq (.map (.seq (.map (.seq wordPart .whitespace) .first) (.take "=")) .first)
    .whitespace) .first

/-- The parser that `value` builds. -/
def valuePart : Parser Function :=
  .map (.seq (.refine wordPart .number (.kind .valueError)) .whitespace) .first

section Build

variable {c : Context Function} {s : State Function Unit} (hc : c.registry = registry)

include hc

theorem mkConvert_word :
    (Parser.mkConvert .word (.kind failed) : Act (Parser Function)) c s =
      (.returned wordPart, s) := by
  refine Parser.mkConvert_returned.2 ⟨rfl, .inr ?_, rfl⟩
  rw [hc, Parser.declares, Registry.canConvert_kind]
  rfl

theorem joins_failed {k : Kind} (hk : k.isInfallible = true ∨ k ∈ absorbed) :
    c.registry.Joins (.kind failed) (.kind k) := by
  have habs : ∀ k ∈ absorbed, ((registry : Registry Function).find? k failed).isSome = true := by
    decide
  refine ⟨failed, rfl, .inr (.inr ?_)⟩
  rw [hc, Registry.canConvert_kind]
  rcases hk with hk | hk
  · simp [hk]
  · simp [habs k hk]

theorem name_returned : name c s = (.returned namePart, s) := by
  have hi : Kind.infallible.isInfallible = true := by decide
  have h₁ : (Parser.mkAfter wordPart .whitespace : Act _) c s = (.returned _, s) :=
    Parser.mkAfter_returned.2 ⟨rfl, joins_failed hc (.inl hi), rfl⟩
  have h₂ : (Parser.mkAfter (.map (.seq wordPart .whitespace) .first) (.take "=") : Act _) c s =
      (.returned _, s) :=
    Parser.mkAfter_returned.2 ⟨rfl, joins_failed hc (.inr (by decide)), rfl⟩
  have h₃ : (Parser.mkAfter (.map (.seq (.map (.seq wordPart .whitespace) .first) (.take "="))
      .first) .whitespace : Act _) c s = (.returned namePart, s) :=
    Parser.mkAfter_returned.2 ⟨rfl, joins_failed hc (.inl hi), rfl⟩
  refine Action.bind_returned.2 ⟨_, _, mkConvert_word hc, Action.bind_returned.2 ⟨_, _, h₁, ?_⟩⟩
  exact Action.bind_returned.2 ⟨_, _, h₂, h₃⟩

theorem value_returned : value c s = (.returned valuePart, s) := by
  have hi : Kind.infallible.isInfallible = true := by decide
  have h₁ : (Parser.mkRefine wordPart .number (.kind .valueError) : Act _) c s =
      (.returned _, s) :=
    Parser.mkRefine_returned.2 ⟨rfl, joins_failed hc (.inr (by decide)), rfl⟩
  have h₂ : (Parser.mkAfter (.refine wordPart .number (.kind .valueError)) .whitespace : Act _) c
      s = (.returned valuePart, s) :=
    Parser.mkAfter_returned.2 ⟨rfl, joins_failed hc (.inl hi), rfl⟩
  refine Action.bind_returned.2 ⟨_, _, mkConvert_word hc, ?_⟩
  exact Action.bind_returned.2 ⟨_, _, h₁, h₂⟩

end Build

end Assignment

end ParserAlgebra
