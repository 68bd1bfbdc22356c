import ParserAlgebra.Proofs.Onward
import ParserAlgebra.Proofs.Shift
import ParserAlgebra.Proofs.SideBySide

/-!
# Parsing from within an input

Parsing an input from some place on comes to the same as parsing what is left of it there, but for the
places that are told: they are shifted, in the spans of the values, in failures, and in the cursor. The
two runs are related step by step (`Action.Matches`): from states that are shifted they end in the same
way, and leave states that are shifted. The functions of the host program have to treat shifted values
alike (`Callbacks.Carries`), which they do if they look at no more than the text of a span. Errors that are
wrapped are shifted again, unless the kind that wraps them reads them (`Conversion.told_wrap`).

An exception that tells of places tells of shifted ones (`Value.Thrown`): where a repetition stands
still, and where its message shows a value that holds spans, or the name of a parser that shows one.
-/

namespace ParserAlgebra

variable {ω σ α α' β β' : Type} {c : Context ω}

/-! ## Two runs from different places -/

/-- The answers are of one form; what is returned is related by `P`, what is raised by `E`. -/
inductive Answer.Matches (E : Value ω → Value ω → Prop) (P : α → β → Prop) :
    Answer ω α → Answer ω β → Prop
  | returned {a : α} {b : β} (h : P a b) : Matches E P (.returned a) (.returned b)
  | raised {e e' : Value ω} (h : E e e') : Matches E P (.raised e) (.raised e')
  | exhausted : Matches E P .exhausted .exhausted

/-- From related states the actions answer alike, and leave related states. -/
def Action.Matches (c : Context ω) (R : State ω σ → State ω σ → Prop)
    (E : Value ω → Value ω → Prop) (P : α → β → Prop) (x : Action ω σ α) (y : Action ω σ β) : Prop :=
  ∀ s t, R s t → (x c s).1.Matches E P (y c t).1 ∧ R (x c s).2 (y c t).2

namespace Action.Matches

variable {R : State ω σ → State ω σ → Prop} {E E' : Value ω → Value ω → Prop} {P : α → β → Prop}
  {Q : α' → β' → Prop} {x : Action ω σ α} {y : Action ω σ β}

theorem mono {P' : α → β → Prop} (h : Matches c R E P x y) (hE : ∀ e e', E e e' → E' e e')
    (hP : ∀ a b, P a b → P' a b) : Matches c R E' P' x y := by
  intro s t hst
  obtain ⟨ha, hu⟩ := h s t hst
  refine ⟨?_, hu⟩
  generalize (x c s).1 = a, (y c t).1 = b at ha
  cases ha with
  | returned h => exact .returned (hP _ _ h)
  | raised h => exact .raised (hE _ _ h)
  | exhausted => exact .exhausted

protected theorem pure {a : α} {b : β} (h : P a b) :
    Matches c R E P (Pure.pure a : Action ω σ α) (Pure.pure b) := fun _ _ hst => ⟨.returned h, hst⟩

protected theorem bind {f : α → Action ω σ α'} {g : β → Action ω σ β'} (hx : Matches c R E P x y)
    (hf : ∀ a b, P a b → Matches c R E Q (f a) (g b)) : Matches c R E Q (x >>= f) (y >>= g) := by
  intro s t hst
  obtain ⟨ha, hu⟩ := hx s t hst
  rw [bind_apply, bind_apply]
  generalize x c s = xs, y c t = yt at ha hu
  obtain ⟨_, u⟩ := xs
  obtain ⟨_, v⟩ := yt
  cases ha with
  | returned h => exact hf _ _ h u v hu
  | raised h => exact ⟨.raised h, hu⟩
  | exhausted => exact ⟨.exhausted, hu⟩

theorem raise {e e' : Value ω} (h : E e e') :
    Matches c R E P (raise e : Action ω σ α) (raise e') := fun _ _ hst => ⟨.raised h, hst⟩

protected theorem exhausted : Matches c R E P (exhausted : Action ω σ α) exhausted :=
  fun _ _ hst => ⟨.exhausted, hst⟩

theorem context_bind {f : Context ω → Action ω σ α} {g : Context ω → Action ω σ β}
    (h : Matches c R E P (f c) (g c)) : Matches c R E P (context >>= f) (context >>= g) := h

theorem writes {l : Level} : Matches c R E Eq (writes l : Action ω σ Bool) (writes l) :=
  fun _ _ hst => ⟨.returned rfl, hst⟩

/-- What is raised alike is caught alike. -/
theorem catching {p : Value ω → Bool} (hx : Matches c R E P x y)
    (hp : ∀ e e', E e e' → p e = p e') :
    Matches c R E (fun r r' => (∃ a b, r = .ok a ∧ r' = .ok b ∧ P a b) ∨
      ∃ e e', r = .error e ∧ r' = .error e' ∧ E e e') (catching p x) (catching p y) := by
  intro s t hst
  obtain ⟨ha, hu⟩ := hx s t hst
  simp only [Action.catching]
  generalize x c s = xs, y c t = yt at ha hu
  obtain ⟨_, u⟩ := xs
  obtain ⟨_, v⟩ := yt
  cases ha with
  | returned h => exact ⟨.returned (.inl ⟨_, _, rfl, rfl, h⟩), hu⟩
  | @raised e e' h =>
    refine ⟨?_, hu⟩
    dsimp only
    rw [hp _ _ h]
    split
    · exact .returned (.inr ⟨_, _, rfl, rfl, h⟩)
    · exact .raised h
  | exhausted => exact ⟨.exhausted, hu⟩

end Action.Matches

variable [HostObject ω]

/-! ## Places -/

inductive Mark.Shifted (S : Shift ω) : Mark ω → Mark ω → Prop
  | place (n : Nat) : Shifted S ⟨S.start + n, none⟩ ⟨n, none⟩

inductive Cursor.Shifted (S : Shift ω) : Cursor ω → Cursor ω → Prop
  | place (n : Nat) : Shifted S ⟨⟨S.start + n, none⟩, S.source⟩ ⟨⟨n, none⟩, S.source.drop S.start⟩

/-- The states have cursors that are shifted, and the host program's own are related by `own`. -/
structure State.Shifted (S : Shift ω) (own : σ → σ → Prop) (s t : State ω σ) : Prop where
  cursor : s.cursor.Shifted S t.cursor
  own : own s.own t.own

variable {S : Shift ω} {own : σ → σ → Prop}

namespace Cursor.Shifted

variable {d e : Cursor ω}

theorem toMark (h : d.Shifted S e) : d.toMark.Shifted S e.toMark := by
  cases h with | place n => exact .place n

theorem rest_eq (h : d.Shifted S e) : d.rest = e.rest := by
  cases h with | place n => exact List.drop_drop.symm

theorem remaining_eq (h : d.Shifted S e) : d.remaining = e.remaining := by
  cases h with | place n => simp only [remaining, List.length_drop]; omega

theorem atEnd_eq (h : d.Shifted S e) : d.atEnd = e.atEnd := by
  cases h with | place n => simp only [atEnd, List.length_drop, decide_eq_decide]; omega

theorem startsWith_eq (h : d.Shifted S e) (literal : List Char) :
    d.startsWith literal = e.startsWith literal := by
  unfold startsWith
  rw [h.rest_eq]

theorem onTo (h : d.Shifted S e) (n : Nat) : (d.onTo (d.pos + n)).Shifted S (e.onTo (e.pos + n)) := by
  cases h with
  | place m =>
    have hend : Cursor.Shifted S _ _ := .place (m + n)
    rwa [← Nat.add_assoc] at hend

theorem spanTo (h : d.Shifted S e) (n : Nat) :
    (d.spanTo (d.pos + n)).Shifted S (e.spanTo (e.pos + n)) := by
  cases h with
  | place m =>
    have hspan : Value.Shifted S _ _ := .span m (m + n)
    rwa [← Nat.add_assoc] at hspan

theorem backTo (h : d.Shifted S e) {m n : Mark ω} (hm : m.Shifted S n) :
    (d.backTo m).Shifted S (e.backTo n) := by
  cases h
  cases hm with | place n => exact .place n

theorem leftover_eq (h : d.Shifted S e) (settings : Settings ω) :
    Preview.leftover settings d = Preview.leftover settings e := by
  unfold Preview.leftover
  rw [h.remaining_eq, h.rest_eq]

/-- The places are numbers, and so is what is added to them, or not. -/
theorem ahead (h : d.Shifted S e) (settings : Settings ω) :
    Told (fun _ _ => True) (Preview.ahead settings d) (Preview.ahead settings e) := by
  unfold Preview.ahead
  refine .bind (P := fun _ _ => True) ?_ fun _ _ _ => .ok trivial
  cases h
  unfold further
  split
  · exact .ok trivial
  · exact .error _

end Cursor.Shifted

theorem Mark.Shifted.equal_eq {m n m' n' : Mark ω} (h : m.Shifted S n) (h' : m'.Shifted S n') :
    m.equal m' = n.equal n' := by
  cases h
  cases h'
  simp

/-! ## Outcomes and parsers -/

/-- Two successes with shifted values, or two failures with shifted errors at shifted places. -/
inductive Outcome.Shifted (S : Shift ω) : Outcome ω → Outcome ω → Prop
  | ok {v w : Value ω} (h : v.Shifted S w) : Shifted S (.ok v) (.ok w)
  | err {e e' : Value ω} (h : e.Shifted S e') (n : Nat) :
      Shifted S (.err e (.int (S.start + n : Nat))) (.err e' (.int n))
  /-- Objects that tell no place. -/
  | derived {o o' : Value ω} (h : o.Shifted S o') (ho : ∀ p, o.get .pos ≠ .ok p) :
      Shifted S (.derived o) (.derived o')

/-- The functions are applied to shifted values in the same way. -/
inductive Mapping.Shifted (F : Use → ω → ω → Prop) : Mapping ω → Mapping ω → Prop
  | first : Shifted F first first
  | second : Shifted F second second
  | cons : Shifted F cons cons
  | discard : Shifted F discard discard
  | function {f g : ω} (h : F .mapping f g) : Shifted F (function f) (function g)

namespace Parser

/-- The parsers are put together in the same way of shifted values and of functions that `F` relates,
each for its use. -/
inductive Shifted (S : Shift ω) (F : Use → ω → ω → Prop) : Parser ω → Parser ω → Prop
  | nextChar : Shifted S F nextChar nextChar
  | word : Shifted S F word word
  | whitespace : Shifted S F whitespace whitespace
  | eof : Shifted S F eof eof
  | take (literal : String) : Shifted S F (take literal) (take literal)
  | pure {v w : Value ω} (h : v.Shifted S w) : Shifted S F (pure v) (pure w)
  | fail {e e' : Value ω} (h : e.Shifted S e') : Shifted S F (fail e) (fail e')
  | seq {p p' q q' : Parser ω} (hp : Shifted S F p p') (hq : Shifted S F q q') :
      Shifted S F (seq p q) (seq p' q')
  | bind {p p' : Parser ω} {f g : ω} (hp : Shifted S F p p') (hf : F .making f g) :
      Shifted S F (bind p f) (bind p' g)
  | map {p p' : Parser ω} {f g : Mapping ω} (hp : Shifted S F p p') (hf : f.Shifted F g) :
      Shifted S F (map p f) (map p' g)
  | refine {p p' : Parser ω} {f g : ω} (hp : Shifted S F p p') (hf : F .refining f g)
      (err : Declared ω) : Shifted S F (refine p f err) (refine p' g err)
  | convert {p p' : Parser ω} (hp : Shifted S F p p') (target : Declared ω) :
      Shifted S F (convert p target) (convert p' target)
  | mapErr {p p' : Parser ω} {f g : ω} (hp : Shifted S F p p') (hf : F .mapping f g)
      (err : Declared ω) : Shifted S F (mapErr p f err) (mapErr p' g err)
  | alt {p p' q q' : Parser ω} (hp : Shifted S F p p') (hq : Shifted S F q q') :
      Shifted S F (alt p q) (alt p' q')
  | rewind {p p' : Parser ω} (hp : Shifted S F p p') : Shifted S F (rewind p) (rewind p')
  | option {v w : Value ω} {p p' : Parser ω} (h : v.Shifted S w) (hp : Shifted S F p p') :
      Shifted S F (option v p) (option w p')
  | many {p p' : Parser ω} (hp : Shifted S F p p') : Shifted S F (many p) (many p')
  | sepBy1 {p p' q q' : Parser ω} (hp : Shifted S F p p') (hq : Shifted S F q q') :
      Shifted S F (sepBy1 p q) (sepBy1 p' q')
  | sepBy {p p' q q' : Parser ω} (hp : Shifted S F p p') (hq : Shifted S F q q') :
      Shifted S F (sepBy p q) (sepBy p' q')
  | later (d : Declared ω) {f g : ω} (hf : F .deferring f g) : Shifted S F (later d f) (later d g)
  | trace (label : String) : Shifted S F (trace label) (trace label)
  | traced (label : String) {p p' : Parser ω} (hp : Shifted S F p p') :
      Shifted S F (traced label p) (traced label p')

variable {F : Use → ω → ω → Prop} {p q : Parser ω}

/-- A parser that is built before the run is the same for both. -/
theorem Composed.shifted (hp : p.Composed fun use f => F use f f) : p.Shifted S F p := by
  induction hp with
  | nextChar => exact .nextChar
  | word => exact .word
  | whitespace => exact .whitespace
  | eof => exact .eof
  | take literal => exact .take literal
  | pure v => exact .pure (.refl v)
  | fail e => exact .fail (.refl e)
  | seq _ _ ihp ihq => exact .seq ihp ihq
  | bind _ hf ih => exact .bind ih hf
  | @map p f _ hf ih =>
    refine .map ih ?_
    cases f with
    | function g => exact .function (hf g rfl)
    | first => exact .first
    | second => exact .second
    | cons => exact .cons
    | discard => exact .discard
  | refine _ hf err ih => exact .refine ih hf err
  | convert _ target ih => exact .convert ih target
  | mapErr _ hf err ih => exact .mapErr ih hf err
  | alt _ _ ihp ihq => exact .alt ihp ihq
  | rewind _ ih => exact .rewind ih
  | option default _ ih => exact .option (.refl default) ih
  | many _ ih => exact .many ih
  | sepBy1 _ _ ihp ihq => exact .sepBy1 ihp ihq
  | sepBy _ _ ihp ihq => exact .sepBy ihp ihq
  | later d hf => exact .later d hf
  | trace label => exact .trace label
  | traced label _ ih => exact .traced label ih

theorem Shifted.declares_eq (h : p.Shifted S F q) : p.declares = q.declares := by
  induction h with
  | fail h => exact congrArg Declared.kind h.kindOf_eq
  | seq _ _ ihp ihq | alt _ _ ihp ihq => simp only [declares, ihp, ihq]
  | bind _ _ ih | refine _ _ _ ih => simp only [declares, ih]
  | map _ _ ih | rewind _ ih | traced _ _ ih => exact ih
  | sepBy1 _ _ ih _ => exact ih
  | _ => rfl

end Parser

/-- What stands where a parser is expected is a parser in both runs, or in neither. A parsing function
of the host program is not allowed. -/
inductive Operand.Shifted (S : Shift ω) (F : Use → ω → ω → Prop) : Operand ω → Operand ω → Prop
  | parser {p q : Parser ω} (h : p.Shifted S F q) : Shifted S F (.parser p) (.parser q)
  | ofClass (name : String) (d : Declared ω) :
      Shifted S F (.ofClass name d Option.none) (.ofClass name d Option.none)
  | other {v w : Value ω} (h : v.Shifted S w) : Shifted S F (.other v) (.other w)

/-- Texts that differ only in the names of parsers, and these are shifted. -/
inductive Parser.Named (S : Shift ω) (F : Use → ω → ω → Prop) : String → String → Prop
  | text (s : String) : Named S F s s
  | name {p q : Parser ω} (h : p.Shifted S F q) : Named S F p.name q.name
  | append {s s' t t' : String} (h : Named S F s s') (h' : Named S F t t') :
      Named S F (s ++ t) (s' ++ t')

/-- The exceptions are shifted values; or they tell of shifted things. -/
inductive Value.Thrown (S : Shift ω) (F : Use → ω → ω → Prop) : Value ω → Value ω → Prop
  | shifted {e e' : Value ω} (h : e.Shifted S e') : Value.Thrown S F e e'
  | standstill {m n : Mark ω} (h : m.Shifted S n) : Value.Thrown S F m.standstill n.standstill
  | infallible {p q : Parser ω} {e e' : Value ω} {said said' : String} (hp : p.Shifted S F q)
      (h : e.Shifted S e') (hs : e.shown? = .ok said) (hs' : e'.shown? = .ok said') :
      Value.Thrown S F (Fault.infallibleFailed p.name said).exception
        (Fault.infallibleFailed q.name said').exception
  | notAParser {v w : Value ω} {said said' : String} (h : v.Shifted S w) (hs : v.shown? = .ok said)
      (hs' : w.shown? = .ok said') :
      Value.Thrown S F (Fault.notAParser said).exception (Fault.notAParser said').exception
  | missing (source target : String) {place place' : String} (h : Parser.Named S F place place') :
      Value.Thrown S F (Fault.missingConversion source target (some place)).exception
        (Fault.missingConversion source target (some place')).exception

variable {F : Use → ω → ω → Prop}

theorem Value.Thrown.fault (f : Fault) : Value.Thrown S F f.exception f.exception :=
  .shifted (.refl _)

namespace Outcome.Shifted

variable {a b : Outcome ω}

theorem succeeded_eq (h : a.Shifted S b) : a.succeeded = b.succeeded := by
  cases h with
  | derived h _ => exact h.truthy_eq
  | _ => rfl

theorem value (h : a.Shifted S b) : Told (Value.Shifted S) a.value b.value := by
  cases h with
  | ok h => exact .ok h
  | err h n => exact .error _
  | derived h _ => exact h.get (.inl rfl)

theorem error (h : a.Shifted S b) : Told (Value.Shifted S) a.error b.error := by
  cases h with
  | ok h => exact .error _
  | err h n => exact .ok h
  | derived h _ => exact h.get (.inr (.inl rfl))

/-- Another error at the place of a failure. -/
theorem pos (h : a.Shifted S b) {e e' : Value ω} (he : e.Shifted S e') :
    Told (fun p q => (Outcome.err e p).Shifted S (.err e' q)) a.pos b.pos := by
  cases h with
  | ok h => exact .error _
  | err _ n => exact .ok (.err he n)
  | @derived o o' h ho =>
    have hget := h.get (S := S) (.inr (.inr rfl))
    unfold Outcome.pos Outcome.toValue
    generalize o.get .pos = p, o'.get .pos = q at hget ho ⊢
    cases hget with
    | ok _ => exact absurd rfl (ho _)
    | error f => exact .error f

theorem failedAt {e e' : Value ω} (h : e.Shifted S e') {m n : Mark ω} (hm : m.Shifted S n) :
    (failedAt e m).Shifted S (failedAt e' n) := by
  cases hm with | place n => exact .err h n

theorem ofValue {v w : Value ω} (h : v.Shifted S w) (hv : v.Unplaced) (herr : ¬ v.isA .err = true) :
    (ofValue v).Shifted S (ofValue w) := by
  have hpos (p : Value ω) : v.get .pos ≠ .ok p := fun hp => herr (hv p hp).1
  cases h with
  | ok h => exact .ok h
  | err _ _ => exact absurd (show Kind.err.isA .err = true by decide) herr
  | _ => exact .derived (by constructor <;> assumption) hpos

end Outcome.Shifted

/-- From shifted states the actions answer alike, and leave shifted states. -/
abbrev Action.Shifts (c : Context ω) (S : Shift ω) (own : σ → σ → Prop) (F : Use → ω → ω → Prop)
    (P : α → β → Prop) (x : Action ω σ α) (y : Action ω σ β) : Prop :=
  Matches c (State.Shifted S own) (Value.Thrown S F) P x y

namespace Action.Matches

variable {P : α → β → Prop} {Q : α' → β' → Prop} {x : Action ω σ α} {y : Action ω σ β}

theorem fault (f : Fault) : Shifts c S own F P (fault f : Action ω σ α) (Action.fault f) :=
  .raise (.fault f)

omit [HostObject ω] in
theorem ofTold {R : State ω σ → State ω σ → Prop} {E : Value ω → Value ω → Prop}
    (hE : ∀ f : Fault, E f.exception f.exception) {q : Except Fault α} {r : Except Fault β}
    (h : Told P q r) : Matches c R E P (liftM q : Action ω σ α) (liftM r) := by
  cases h with
  | ok h => exact .pure h
  | error f => exact .raise (hE f)

theorem ask {q : Except Fault α} {r : Except Fault β} (h : Told P q r) :
    Shifts c S own F P (liftM q : Action ω σ α) (liftM r) :=
  ofTold .fault h

theorem askEq {q r : Except Fault α} (h : q = r) :
    Shifts c S own F Eq (liftM q : Action ω σ α) (liftM r) := by
  subst h
  exact ask (.refl (fun _ => rfl) q)

theorem save : Shifts c S own F (Mark.Shifted S) (save : Action ω σ (Mark ω)) save :=
  fun _ _ hst => ⟨.returned hst.cursor.toMark, hst⟩

theorem cursor : Shifts c S own F (Cursor.Shifted S) (cursor : Action ω σ (Cursor ω)) cursor :=
  fun _ _ hst => ⟨.returned hst.cursor, hst⟩

theorem setCursor {d e : Cursor ω} (h : d.Shifted S e) :
    Shifts c S own F Eq (setCursor d : Action ω σ Unit) (setCursor e) :=
  fun _ _ hst => ⟨.returned rfl, h, hst.own⟩

theorem rewindTo {m n : Mark ω} (h : m.Shifted S n) :
    Shifts c S own F Eq (rewindTo m : Action ω σ Unit) (rewindTo n) :=
  fun _ _ hst => ⟨.returned rfl, hst.cursor.backTo h, hst.own⟩

/-- The messages need not be the same. -/
theorem log {l : Level} {ch : Level.Channel} {message message' : String} :
    Shifts c S own F Eq (log l ch message : Action ω σ Unit) (Action.log l ch message') := by
  intro s t hst
  refine ⟨.returned rfl, ?_⟩
  simp only [Action.log]
  split
  · exact ⟨hst.cursor, hst.own⟩
  · exact hst

/-- Nor need both be written. -/
theorem note {l : Level} {ch : Level.Channel} {m m' : Except Fault String} :
    Shifts c S own F Eq (note l ch m : Action ω σ Unit) (Action.note l ch m') := by
  intro s t hst
  obtain ⟨u, ⟨hcursor, hown⟩, hx⟩ : ∃ u, State.Alike id u s ∧ _ := note_returned l ch m s
  obtain ⟨v, ⟨hcursor', hown'⟩, hy⟩ : ∃ v, State.Alike id v t ∧ _ := note_returned l ch m' t
  have hown : u.own = s.own := hown
  have hown' : v.own = t.own := hown'
  rw [hx, hy]
  exact ⟨.returned rfl, by rw [hcursor, hcursor']; exact hst.cursor, by rw [hown, hown']; exact hst.own⟩

theorem ifSucceeded {a b : Outcome ω} (h : a.Shifted S b) {x' : Action ω σ α} {y' : Action ω σ β}
    (hx : Shifts c S own F P x y) (hx' : Shifts c S own F P x' y') :
    Shifts c S own F P (do if ← a.succeeded then x else x') (do if ← b.succeeded then y else y') := by
  refine .bind (askEq h.succeeded_eq) ?_
  rintro b _ rfl
  cases b
  · exact hx'
  · exact hx

end Action.Matches

/-- The conversion reads the error: it is a function, or the kind that wraps does. -/
def Conversion.Reads (d : Declared ω) : Conversion ω → Prop
  | .wrapping => ∃ k, d = .kind k ∧ ¬ k.Holds
  | .function _ => True

/-- The functions of the host program, applied to shifted values, make shifted ones of them, or raise
exceptions that tell of shifted things. Those that may refuse a value give no place, and what they raise may
become an error, so it is a shifted value. -/
structure Callbacks.Carries (cb : Callbacks ω σ) (c : Context ω) (S : Shift ω) (own : σ → σ → Prop)
    (F : Use → ω → ω → Prop) : Prop where
  mapping : ∀ {f g v w}, F .mapping f g → v.Shifted S w →
    Action.Shifts c S own F (Value.Shifted S) (cb.call f v) (cb.call g w)
  refining : ∀ {f g v w}, F .refining f g → v.Shifted S w →
    Action.Matches c (State.Shifted S own) (Value.Shifted S) (fun a b => a.Shifted S b ∧ a.Unplaced)
      (cb.call f v) (cb.call g w)
  making : ∀ {f g v w}, F .making f g → v.Shifted S w →
    Action.Shifts c S own F (fun a b => (Operand.ofValue cb.operand a).Shifted S F (.ofValue cb.operand b))
      (cb.call f v) (cb.call g w)
  deferring : ∀ {f g}, F .deferring f g →
    Action.Shifts c S own F (Parser.Shifted S F) (cb.force f) (cb.force g)
  conversion : ∀ {e e' d conv}, c.registry.route? e.kindOf d = .ok (some conv) → conv.Reads d →
    e.Shifted S e' → Action.Shifts c S own F (Value.Shifted S) (Conversion.apply cb d e conv)
      (Conversion.apply cb d e' conv)

open ParserAlgebra.Action (Shifts Matches)

variable {cb : Callbacks ω σ}

/-- What is raised by a function is raised by the run. -/
theorem Action.Matches.shifts {P : α → β → Prop} {x : Action ω σ α} {y : Action ω σ β}
    (h : Matches c (State.Shifted S own) (Value.Shifted S) P x y) : Shifts c S own F P x y :=
  h.mono (fun _ _ h => .shifted h) fun _ _ h => h

/-- Errors that are wrapped are shifted again; those that are chained to them are of one kind. -/
theorem Conversion.told_wrap {k : Kind} (hk : k.Holds) {e e' : Value ω} (h : e.Shifted S e') :
    Told (Value.Shifted S) (wrap k e) (wrap k e') := by
  unfold wrap
  refine (Value.told_construct hk (.cons h .nil)).bind fun v w hvw => ?_
  cases hvw with
  | object l mark chained hheld has =>
    dsimp only
    rw [h.kindOf_eq]
    exact .ite (fun _ => .ok (.object l mark _ hheld has)) fun _ => .ok (.object l mark _ hheld has)
  | _ => exact .ok (by constructor <;> assumption)

theorem Callbacks.Carries.apply (hcb : cb.Carries c S own F) {e e' : Value ω} {d : Declared ω}
    {conv : Conversion ω} (hf : c.registry.route? e.kindOf d = .ok (some conv)) (h : e.Shifted S e') :
    Shifts c S own F (Value.Shifted S) (Conversion.apply cb d e conv) (Conversion.apply cb d e' conv) := by
  by_cases hr : conv.Reads d
  · exact hcb.conversion hf hr h
  · rcases conv with _ | f
    · rcases d with k | v
      · have hk : k.Holds := by_contra fun hk => hr ⟨k, rfl, hk⟩
        exact .ask (Conversion.told_wrap hk h)
      · exact .fault _
    · exact absurd trivial hr

theorem Callbacks.Carries.coerce (hcb : cb.Carries c S own F) {e e' : Value ω} (h : e.Shifted S e')
    (d : Declared ω) :
    Shifts c S own F (Value.Shifted S) (Conversion.coerce cb e d) (Conversion.coerce cb e' d) := by
  unfold Conversion.coerce
  rw [← h.kindOf_eq]
  split
  · exact .pure h
  · split
    · exact .pure h
    · refine .context_bind ?_
      split
      · next hf => exact hcb.apply (d := .kind _) (congrArg Except.ok hf) h
      · exact .bind .note fun _ _ _ => .fault _
    · refine .context_bind ?_
      rcases hs : c.registry.stray? e.kindOf _ with f | _ | conv
      · exact .fault f
      · exact .fault _
      · exact hcb.apply (d := .plain _) hs h
    · exact .fault _

theorem Operand.Shifted.toParser {o o' : Operand ω} (h : o.Shifted S F o') :
    Shifts (σ := σ) c S own F (Parser.Shifted S F) (liftM (o.toParser none))
      (liftM (o'.toParser none)) := by
  cases h with
  | parser h => exact .pure h
  | ofClass name d => exact .fault _
  | @other v w h =>
    change Shifts c S own F _ (liftM (do .error (.notAParser (← v.shown?)) : Except Fault _))
      (liftM (do .error (.notAParser (← w.shown?)) : Except Fault _))
    have hshown := h.shown?
    generalize hs : v.shown? = said, hs' : w.shown? = said' at hshown
    cases hshown with
    | ok _ => exact .raise (.notAParser h hs hs')
    | error f => exact .fault f

namespace Parser

section Pieces

variable {a b : Outcome ω} {p q : Parser ω}

theorem shifts_retarget (hcb : cb.Carries c S own F) (hp : p.Shifted S F q) (h : a.Shifted S b)
    (target : Declared ω) :
    Shifts c S own F (Outcome.Shifted S) (retarget cb p.name p.declares target a)
      (retarget cb q.name q.declares target b) := by
  unfold retarget
  rw [hp.declares_eq]
  refine .bind (.askEq rfl) ?_
  rintro k _ rfl
  split
  · refine .bind (.ask h.error) fun e e' he => ?_
    have hshown := he.shown?
    generalize hs : e.shown? = said, hs' : e'.shown? = said' at hshown
    cases hshown with
    | ok _ => exact .raise (.infallible hp he hs hs')
    | error f => exact .fault f
  · refine .bind (.ask h.error) fun e e' he => .bind (hcb.coerce he target) fun v w hvw => ?_
    exact .bind (.ask (h.pos hvw)) fun _ _ h => .pure h

theorem shifts_refined (hcb : cb.Carries c S own F) {v w : Value ω} (h : v.Shifted S w)
    (hv : v.Unplaced) (target : Declared ω) :
    Shifts c S own F (Outcome.Shifted S) (refined cb target v) (refined cb target w) := by
  unfold refined
  rw [← h.isA_eq, ← h.isA_eq]
  split
  · refine .bind (.ask (h.get (.inr (.inl rfl)))) fun e e' he => ?_
    refine .bind (hcb.coerce he target) fun x y hxy => ?_
    have hget := h.get (.inr (.inr rfl))
    generalize hpos : v.get .pos = r, w.get .pos = r' at hget
    cases hget with
    | error f => exact .fault f
    | ok hp =>
      -- The function has told no place, so both failures are reported at the cursor.
      obtain ⟨-, rfl⟩ := hv _ hpos
      cases hp
      refine .bind (P := fun p q => p = .none ∧ q = .none) (.pure ⟨rfl, rfl⟩) ?_
      rintro _ _ ⟨rfl, rfl⟩
      exact .bind .save fun m n hm => .pure (.failedAt hxy hm)
  · next herr =>
    split
    · exact .pure (.ofValue h hv herr)
    · exact .pure (.ok h)

theorem shifts_apply (hcb : cb.Carries c S own F) {f g : Mapping ω} (hf : f.Shifted F g)
    {v w : Value ω} (h : v.Shifted S w) :
    Shifts c S own F (Value.Shifted S) (f.apply cb v) (g.apply cb w) := by
  cases hf with
  | function hf => exact hcb.mapping hf h
  | discard => exact .pure .none
  | first =>
    cases h with
    | @tuple vs ws hs =>
      cases hs with
      | nil => exact .pure (.tuple .nil)
      | cons h _ => exact .pure h
    | _ => exact .pure (by constructor <;> assumption)
  | second =>
    cases h with
    | tuple hs =>
      cases hs with
      | nil => exact .pure (.tuple .nil)
      | cons h hs =>
        cases hs with
        | nil => exact .pure (.tuple (.cons h .nil))
        | cons h' _ => exact .pure h'
    | _ => exact .pure (by constructor <;> assumption)
  | cons =>
    cases h with
    | tuple hs =>
      cases hs with
      | nil => exact .pure (.tuple .nil)
      | cons h hs =>
        cases hs with
        | nil => exact .pure (.tuple (.cons h .nil))
        | cons h' hs =>
          cases h' with
          | list h' => exact .pure (.list (.cons h h'))
          | _ => exact .pure (.tuple (.cons h (.cons (by constructor <;> assumption) hs)))
    | _ => exact .pure (by constructor <;> assumption)

theorem shifts_skipRun (p : Char → Bool) : Shifts c S own F Eq (skipRun p : Action ω σ Nat) (skipRun p) := by
  unfold skipRun
  refine .bind .cursor fun d e hde => ?_
  rw [hde.rest_eq]
  dsimp only
  split
  · exact .bind (.setCursor (hde.onTo _)) fun _ _ _ => .pure rfl
  · exact .pure rfl

theorem shifts_runTrace (label label' : String) :
    Shifts c S own F Eq (runTrace label : Action ω σ Unit) (runTrace label') := by
  unfold runTrace
  refine .bind .writes ?_
  rintro loud _ rfl
  split
  · refine .bind .cursor fun d e hde => .context_bind ?_
    exact .bind (.ask (hde.ahead c.settings)) fun _ _ _ => .log
  · exact .pure rfl

theorem shifts_logShown (ch : Level.Channel) (said said' : String) (v w : Value ω) :
    Shifts c S own F Eq (logShown ch said v : Action ω σ Unit) (logShown ch said' w) := .note

theorem shifts_checkProgress {ch : Level.Channel} {message message' : String} {m n : Mark ω}
    (h : m.Shifted S n) :
    Shifts c S own F Eq (checkProgress ch message m : Action ω σ Unit)
      (checkProgress ch message' n) := by
  unfold checkProgress
  refine .bind .save fun m' n' hmn => .bind (.askEq (hmn.equal_eq h)) ?_
  rintro still _ rfl
  split
  · refine .context_bind (.bind (.askEq rfl) ?_)
    rintro on _ rfl
    split
    · rw [Action.raise_standstill, Action.raise_standstill]
      exact .bind .log fun _ _ _ => .raise (.standstill h)
    · exact .pure rfl
  · exact .pure rfl

/-- From what is gathered on, which is shifted too. -/
theorem shifts_looped {ch : Level.Channel} {message message' : String}
    {x y : Action ω σ (Outcome ω)} (hxy : Shifts c S own F (Outcome.Shifted S) x y) :
    ∀ (n : Nat) {done done' : List (Value ω)}, Value.AllShifted S done done' →
      Shifts c S own F (Value.AllShifted S) (looped ch message x n done) (looped ch message' y n done')
  | 0, _, _, _ => .exhausted
  | n + 1, done, done', h => by
    rw [looped, looped]
    refine .bind .save fun m m' hm => .bind hxy fun a b hab => .ifSucceeded hab ?_ ?_
    · exact .bind (shifts_checkProgress hm) fun _ _ _ => .bind (.ask hab.value) fun v w hvw =>
        shifts_looped hxy n (.cons hvw h)
    · exact .bind (.rewindTo hm) fun _ _ _ => .pure h.reverse

theorem shifts_pairing {item item' sep sep' : Action ω σ (Outcome ω)}
    (hi : Shifts c S own F (Outcome.Shifted S) item item')
    (hs : Shifts c S own F (Outcome.Shifted S) sep sep') :
    Shifts c S own F (Outcome.Shifted S) (pairing item sep) (pairing item' sep') :=
  .bind hs fun _ _ hab => .ifSucceeded hab hi (.pure hab)

theorem shifts_runSepBy1 {item item' sep sep' : Action ω σ (Outcome ω)} {name name' : String}
    (hi : Shifts c S own F (Outcome.Shifted S) item item')
    (hs : Shifts c S own F (Outcome.Shifted S) sep sep') :
    Shifts c S own F (Outcome.Shifted S) (runSepBy1 cb name item sep)
      (runSepBy1 cb name' item' sep') := by
  unfold runSepBy1
  refine .bind hi fun a b hab => .ifSucceeded hab (.bind (.ask hab.value) fun v w hvw => ?_) (.pure hab)
  rw [separated_eq_looped, separated_eq_looped]
  exact .bind (shifts_looped (shifts_pairing hi hs) _ (.cons hvw .nil)) fun vs ws hs =>
    .pure (.ok (.list hs))

end Pieces

/-- Where the parsers that are made during the run are shifted, the runs are. -/
theorem Shifted.run (hcb : cb.Carries c S own F)
    (hresume : ∀ p q : Parser ω, p.Shifted S F q →
      Shifts c S own F (Outcome.Shifted S) (cb.resume p) (cb.resume q))
    {p q : Parser ω} (h : p.Shifted S F q) :
    Shifts c S own F (Outcome.Shifted S) (p.run cb) (q.run cb) := by
  induction h with
  | nextChar =>
    rw [Parser.run]
    refine .bind .cursor fun d e hde => ?_
    rw [hde.atEnd_eq]
    split
    · exact .pure (.failedAt (.refl _) hde.toMark)
    · exact .bind (.setCursor (hde.onTo 1)) fun _ _ _ => .pure (.ok (hde.spanTo 1))
  | word =>
    rw [Parser.run]
    refine .bind .cursor fun d e hde => .bind (shifts_skipRun _) ?_
    rintro n _ rfl
    split
    · exact .pure (.failedAt (.refl _) hde.toMark)
    · exact .pure (.ok (hde.spanTo n))
  | whitespace =>
    rw [Parser.run]
    refine .bind (shifts_skipRun _) ?_
    rintro n _ rfl
    exact .pure (.ok (.refl _))
  | eof =>
    rw [Parser.run]
    refine .bind .cursor fun d e hde => ?_
    rw [hde.atEnd_eq]
    split
    · exact .pure (.ok .none)
    · refine .context_bind (.bind (.askEq (hde.leftover_eq _)) ?_)
      rintro found _ rfl
      exact .pure (.failedAt (.refl _) hde.toMark)
  | take literal =>
    rw [Parser.run]
    refine .bind .cursor fun d e hde => ?_
    dsimp only
    rw [hde.startsWith_eq, hde.remaining_eq]
    split
    · exact .bind (.setCursor (hde.onTo _)) fun _ _ _ => .pure (.ok (hde.spanTo _))
    · exact .pure (.failedAt (.refl _) hde.toMark)
  | pure h =>
    rw [Parser.run, Parser.run]
    exact .pure (.ok h)
  | fail h =>
    rw [Parser.run, Parser.run]
    exact .bind .save fun m n hm => .pure (.failedAt h hm)
  | @seq p p' q q' hp hq ihp ihq =>
    have ht : Registry.joined p'.declares q'.declares = Registry.joined p.declares q.declares := by
      rw [hp.declares_eq, hq.declares_eq]
    rw [Parser.run, Parser.run, ht]
    refine .bind ihp fun a b hab => .ifSucceeded hab ?_ ?_
    · refine .bind ihq fun a' b' hab' => .ifSucceeded hab' ?_ ?_
      · exact .bind (.ask hab.value) fun v w hvw => .bind (.ask hab'.value) fun v' w' hvw' =>
          .pure (.ok (.tuple (.cons hvw (.cons hvw' .nil))))
      · exact shifts_retarget hcb hq hab' _
    · exact shifts_retarget hcb hp hab _
  | @bind p p' f g hp hf ih =>
    have ht : (if p'.declares.isInfallible then Declared.undeclared else p'.declares) =
        if p.declares.isInfallible then Declared.undeclared else p.declares := by
      rw [hp.declares_eq]
    rw [Parser.run, Parser.run, ht]
    refine .bind ih fun a b hab => .ifSucceeded hab ?_ ?_
    · refine .bind (.ask hab.value) fun v w hvw => .bind (hcb.making hf hvw) fun x y hxy => ?_
      refine .bind hxy.toParser fun q q' hq => .bind (hresume q q' hq) fun out out' hout => ?_
      exact .ifSucceeded hout (.pure hout) (shifts_retarget hcb hq hout _)
    · exact shifts_retarget hcb hp hab _
  | map _ hf ih =>
    rw [Parser.run, Parser.run]
    exact .bind ih fun a b hab => .ifSucceeded hab (.bind (.ask hab.value) fun v w hvw =>
      .bind (shifts_apply hcb hf hvw) fun x y hxy => .pure (.ok hxy)) (.pure hab)
  | @refine p p' f g hp hf err ih =>
    have ht : Registry.joined p'.declares err = Registry.joined p.declares err := by
      rw [hp.declares_eq]
    rw [Parser.run, Parser.run, ht]
    refine .bind ih fun a b hab => .ifSucceeded hab ?_ (shifts_retarget hcb hp hab _)
    have hcall : Matches c (State.Shifted S own) (Value.Shifted S)
        (fun v w => v.Shifted S w ∧ v.Unplaced) (do cb.call f (← a.value)) (do cb.call g (← b.value)) :=
      .bind (.ofTold (fun _ => .refl _) hab.value) fun v w hvw => hcb.refining hf hvw
    refine .bind (hcall.catching fun e e' he => by rw [he.kindOf_eq]).shifts ?_
    rintro _ _ (⟨v, w, rfl, rfl, hvw, hv⟩ | ⟨e, e', rfl, rfl, he⟩)
    · exact shifts_refined hcb hvw hv _
    · exact .bind (hcb.coerce he _) fun x y hxy => .bind .save fun m n hm => .pure (.failedAt hxy hm)
  | convert hp target ih =>
    rw [Parser.run, Parser.run]
    exact .bind ih fun a b hab => .ifSucceeded hab (.pure hab) (shifts_retarget hcb hp hab target)
  | mapErr _ hf err ih =>
    rw [Parser.run, Parser.run]
    refine .bind ih fun a b hab => .ifSucceeded hab (.pure hab) ?_
    refine .bind (.ask hab.error) fun e e' he => .bind (hcb.mapping hf he) fun v w hvw => ?_
    exact .bind (.ask (hab.pos hvw)) fun _ _ h => .pure h
  | @alt p p' q q' hp hq ihp ihq =>
    have ht : Registry.joined p'.declares q'.declares = Registry.joined p.declares q.declares := by
      rw [hp.declares_eq, hq.declares_eq]
    rw [Parser.run, Parser.run, ht]
    refine .bind .save fun m n hm => .bind ihp fun a b hab => .ifSucceeded hab (.pure hab) ?_
    refine .bind (.rewindTo hm) fun _ _ _ => .bind ihq fun a' b' hab' =>
      .ifSucceeded hab' (.pure hab') (.bind (.rewindTo hm) fun _ _ _ => ?_)
    exact shifts_retarget hcb hq hab' _
  | rewind _ ih =>
    rw [Parser.run, Parser.run]
    exact .bind .save fun m n hm => .bind ih fun a b hab => .ifSucceeded hab (.pure hab)
      (.bind (.rewindTo hm) fun _ _ _ => .pure hab)
  | option h _ ih =>
    rw [Parser.run, Parser.run]
    exact .bind .save fun m n hm => .bind ih fun a b hab => .ifSucceeded hab (.pure hab)
      (.bind (.rewindTo hm) fun _ _ _ => .pure (.ok h))
  | many _ ih =>
    rw [Parser.run, Parser.run, repeated_eq_looped, repeated_eq_looped]
    exact .bind (shifts_looped ih _ .nil) fun vs ws hs => .pure (.ok (.list hs))
  | sepBy1 _ _ ihp ihq =>
    rw [Parser.run, Parser.run]
    exact shifts_runSepBy1 ihp ihq
  | sepBy _ _ ihp ihq =>
    rw [Parser.run, Parser.run]
    exact .bind .save fun m n hm => .bind (shifts_runSepBy1 ihp ihq) fun a b hab =>
      .ifSucceeded hab (.pure hab) (.bind (.rewindTo hm) fun _ _ _ => .pure (.ok (.list .nil)))
  | later d hf =>
    rw [Parser.run, Parser.run]
    exact .bind (hcb.deferring hf) hresume
  | trace label =>
    rw [Parser.run]
    exact .bind (shifts_runTrace _ _) fun _ _ _ => .pure (.ok .none)
  | traced label _ ih =>
    rw [Parser.run, Parser.run]
    refine .bind (shifts_runTrace _ _) fun _ _ _ => .bind .save fun m n hm =>
      .bind ih fun a b hab => .ifSucceeded hab ?_ ?_
    · exact .bind (.ask hab.value) fun v w hvw => .bind (shifts_logShown _ _ _ _ _) fun _ _ _ =>
        .pure hab
    · exact .bind (.rewindTo hm) fun _ _ _ => .bind (shifts_runTrace _ _) fun _ _ _ =>
        .bind (.ask hab.error) fun e e' he => .bind (shifts_logShown _ _ _ _ _) fun _ _ _ => .pure hab

/-- The same, when the host program's functions are tied to runs: on how deep the parsers that are made
during the run are nested in each other. -/
theorem Shifted.run_callbacks {h : Host ω σ} {rounds : Nat}
    (hh : ∀ n, (h.callbacks rounds n).Carries c S own F) :
    ∀ (depth : Nat) {p q : Parser ω}, p.Shifted S F q →
      Shifts c S own F (Outcome.Shifted S) (p.run (h.callbacks rounds depth))
        (q.run (h.callbacks rounds depth))
  | 0, _, _, hp => hp.run (hh 0) fun _ _ _ => .exhausted
  | depth + 1, _, _, hp => hp.run (hh (depth + 1)) fun _ _ hq => run_callbacks hh depth hq

/-- From a place of an input, and from the start of what is left of the input there, a parser comes to
the same but for the places that are told, which are shifted, and ends at shifted places. -/
theorem Composed.independent_of_prefix {h : Host ω σ} {rounds depth : Nat} {p : Parser ω}
    (hp : p.Composed fun use f => F use f f) (hh : ∀ n, (h.callbacks rounds n).Carries c S own F)
    {o o' : σ} (ho : own o o') (log log' : List Record) :
    let x := p.run (h.callbacks rounds depth) c ⟨⟨⟨S.start, none⟩, S.source⟩, log, o⟩
    let y := p.run (h.callbacks rounds depth) c ⟨.ofList (S.source.drop S.start), log', o'⟩
    x.1.Matches (Value.Thrown S F) (Outcome.Shifted S) y.1 ∧ x.2.cursor.Shifted S y.2.cursor := by
  intro x y
  have hstart : State.Shifted S own (⟨⟨⟨S.start, none⟩, S.source⟩, log, o⟩ : State ω σ)
      ⟨.ofList (S.source.drop S.start), log', o'⟩ := ⟨.place 0, ho⟩
  obtain ⟨hanswer, hend⟩ := Shifted.run_callbacks hh depth hp.shifted _ _ hstart
  exact ⟨hanswer, hend.cursor⟩

end Parser

/-! ## Parsers that are built during the run -/

namespace Conversion

theorem shifts_demand (source target : Declared ω) {place place' : String}
    (h : Parser.Named S F place place') (hne : place.isEmpty = false) (hne' : place'.isEmpty = false) :
    Shifts (σ := σ) c S own F Eq (demand source target place) (demand source target place') := by
  unfold demand
  split
  · exact .pure rfl
  refine .context_bind (.bind (.askEq rfl) ?_)
  rintro can _ rfl
  split
  · exact .pure rfl
  refine .bind (.askEq rfl) ?_
  rintro s _ rfl
  refine .bind (.askEq rfl) ?_
  rintro t _ rfl
  rw [hne, hne']
  exact .bind .log fun _ _ _ => .raise (.missing s t h)

theorem shifts_join (first second : Declared ω) {place place' : String}
    (h : Parser.Named S F place place') (hne : place.isEmpty = false) (hne' : place'.isEmpty = false) :
    Shifts (σ := σ) c S own F Eq (join first second place) (join first second place') := by
  unfold join
  refine .bind (.askEq rfl) ?_
  rintro k _ rfl
  split
  · exact .pure rfl
  · exact .bind (shifts_demand second first h hne hne') fun _ _ _ => .pure rfl

end Conversion

namespace Parser

/-- The combinators put shifted parsers together to shifted ones, or raise exceptions that tell of shifted
ones. -/
structure Combines (σ : Type) (c : Context ω) (S : Shift ω) (own : σ → σ → Prop) (F : Use → ω → ω → Prop)
    (p p' q q' : Parser ω) : Prop where
  seq : Shifts c S own F (Parser.Shifted S F) (mkSeq p q) (mkSeq p' q')
  after : Shifts c S own F (Parser.Shifted S F) (mkAfter p q) (mkAfter p' q')
  before : Shifts c S own F (Parser.Shifted S F) (mkBefore p q) (mkBefore p' q')
  alt : Shifts c S own F (Parser.Shifted S F) (mkAlt p q) (mkAlt p' q')
  bind : ∀ {f g}, F .making f g → Shifts c S own F (Parser.Shifted S F) (mkBind p f) (mkBind p' g)
  refine : ∀ {f g} (err : Declared ω), F .refining f g →
    Shifts c S own F (Parser.Shifted S F) (mkRefine p f err) (mkRefine p' g err)
  convert : ∀ target : Declared ω,
    Shifts c S own F (Parser.Shifted S F) (mkConvert p target) (mkConvert p' target)

theorem Shifted.combines {p p' q q' : Parser ω} (hp : p.Shifted S F p') (hq : q.Shifted S F q') :
    Combines σ c S own F p p' q q' := by
  have hsign (sign : String) : Named S F (p.name ++ sign ++ q.name) (p'.name ++ sign ++ q'.name) :=
    .append (.append (.name hp) (.text sign)) (.name hq)
  have hmethod (method : String) : Named S F (p.name ++ method) (p'.name ++ method) :=
    .append (.name hp) (.text method)
  have hseq : Shifts c S own F (Parser.Shifted S F) (mkSeq p q) (mkSeq p' q') := by
    unfold mkSeq
    rw [← hp.declares_eq, ← hq.declares_eq]
    refine .bind (Conversion.shifts_join _ _ (hsign " & ") ?_ ?_) fun _ _ _ => .pure (.seq hp hq)
    all_goals simp [toString]
  constructor
  case seq => exact hseq
  case after => exact .bind hseq fun _ _ h => .pure (.map h .first)
  case before => exact .bind hseq fun _ _ h => .pure (.map h .second)
  case alt =>
    unfold mkAlt
    rw [← hp.declares_eq, ← hq.declares_eq]
    refine .bind (Conversion.shifts_join _ _ (hsign " | ") ?_ ?_) fun _ _ _ => .pure (.alt hp hq)
    all_goals simp [toString]
  case bind =>
    intro f g hf
    unfold mkBind
    rw [← hp.declares_eq]
    exact .bind (.askEq rfl) fun _ _ _ => .pure (.bind hp hf)
  case refine =>
    intro f g err hf
    unfold mkRefine
    rw [← hp.declares_eq]
    refine .bind (Conversion.shifts_join _ _ (hmethod ".and_then") ?_ ?_) fun _ _ _ =>
      .pure (.refine hp hf err)
    all_goals simp [toString]
  case convert =>
    intro target
    unfold mkConvert
    rw [← hp.declares_eq]
    refine .bind (Conversion.shifts_demand _ _ (hmethod ".convert_err") ?_ ?_) fun _ _ _ =>
      .pure (.convert hp target)
    all_goals simp [toString]

theorem shifts_mkPure {v w : Value ω} (h : v.Shifted S w) :
    Shifts (σ := σ) c S own F (Parser.Shifted S F) (liftM (mkPure v)) (liftM (mkPure w)) :=
  .ask (h.shown?.map fun _ _ _ => .pure h)

theorem shifts_mkChoice {os os' : List (Operand ω)} (h : List.Forall₂ (Operand.Shifted S F) os os') :
    Shifts (σ := σ) c S own F (Parser.Shifted S F) (mkChoice os) (mkChoice os') := by
  have hfold {p p' : Parser ω} (hp : p.Shifted S F p') {os os' : List (Operand ω)}
      (h : List.Forall₂ (Operand.Shifted S F) os os') :
      Shifts (σ := σ) c S own F (Parser.Shifted S F)
        (os.foldlM (fun p (o : Operand ω) => do mkAlt p (← o.toParser none)) p)
        (os'.foldlM (fun p (o : Operand ω) => do mkAlt p (← o.toParser none)) p') := by
    induction h generalizing p p' with
    | nil => exact .pure hp
    | cons ho _ ih =>
      rw [List.foldlM_cons, List.foldlM_cons]
      exact .bind (.bind ho.toParser fun _ _ hq => (hp.combines hq).alt) fun _ _ hq => ih hq
  cases h with
  | nil => exact .pure (.fail (.refl _))
  | cons ho hs => exact .bind ho.toParser fun _ _ hp => hfold hp hs

end Parser

/-! ## A span in a message -/

/-- Spans that are shifted have the same text. -/
theorem Span.text_shifted (source : List Char) (start i j : Nat) :
    (⟨source, start + i, start + j⟩ : Span).text = (⟨source.drop start, i, j⟩ : Span).text := by
  unfold Span.text Span.chars
  rw [List.drop_drop, Nat.add_sub_add_left]

/-- The objects of a small host program: parsers, and the functions that it uses. -/
inductive Reader where
  | parser (p : Parser Reader)
  /-- Reads the text of a span. -/
  | text
  /-- Refuses what it is given. -/
  | refused
  /-- Makes the choice between a value with a `b` behind it, and a word. -/
  | either

namespace Reader

instance : HostObject Reader where
  kind
    | .parser _ => .parser
    | _ => .function
  shown _ := "<function>"
  name? _ := none
  present _ := .null

def host : Host Reader Unit where
  call _ f v :=
    match f, v with
    | .text, .span s => return .str s.text
    | .refused, v => return .err v .none
    | .either, v => do
      let p ← Parser.mkSeq (← Parser.mkPure v) (.take "b")
      return .host (.parser (← Parser.mkChoice [.parser p, .parser .word]))
    | _, v => return v
  step _ _ := return .none
  force _ _ := return .word
  operand
    | .parser p => .parser p
    | f => .other (.host f)

/-- What the functions are good for. -/
inductive Good : Use → Reader → Reader → Prop
  | text : Good .mapping .text .text
  | refusing : Good .mapping .refused .refused
  | refused : Good .refining .refused .refused
  | either : Good .making .either .either

theorem carries {S : Shift Reader} {rounds depth : Nat} {settings : Settings Reader}
    {threshold : Level} :
    (host.callbacks rounds depth).Carries
      (⟨Assignment.registry, settings, threshold⟩ : Context Reader) S Eq Good := by
  have hcall (f : Reader) (v : Value Reader) :
      (host.callbacks rounds depth).call f v = host.call (fun _ => Action.exhausted) f v := by
    cases depth <;> rfl
  have hoperand : (host.callbacks rounds depth).operand = host.operand := by cases depth <;> rfl
  constructor
  case mapping =>
    rintro _ _ v w (_ | _) h
    · rw [hcall, hcall]
      cases h with
      | span i j =>
        refine .pure ?_
        rw [Span.text_shifted]
        exact .str _
      | _ => exact .pure (by constructor <;> assumption)
    · rw [hcall, hcall]
      exact .pure (.err h .none)
  case refining =>
    rintro _ _ v w ⟨⟩ h
    rw [hcall, hcall]
    refine .pure ⟨.err h .none, fun pos hpos => ⟨?_, (Except.ok.inj hpos).symm⟩⟩
    exact show Kind.err.isA .err = true by decide
  case making =>
    rintro _ _ v w ⟨⟩ h
    rw [hcall, hcall, hoperand]
    refine .bind (Parser.shifts_mkPure h) fun p p' hp => ?_
    refine .bind (hp.combines (.take "b")).seq fun q q' hq => ?_
    have hword : Operand.Shifted S Good (.parser .word) (.parser .word) := .parser .word
    exact .bind (Parser.shifts_mkChoice (.cons (.parser hq) (.cons hword .nil))) fun r r' hr =>
      .pure (.parser hr)
  case deferring => exact fun h => nomatch h
  case conversion =>
    rintro e e' (t | v) conv hf hr h
    · obtain ⟨rfl, rfl⟩ := Assignment.find?_registry (Except.ok.inj hf)
      obtain ⟨_, ⟨⟩, hk⟩ := hr
      exact absurd (by unfold Kind.Holds; decide) hk
    · exact absurd hf (Registry.stray?_of_nil rfl _ v conv)

end Reader

namespace Parser

/-- A character whose text is read, and then as many of another as there are, whose error is wrapped. The spans
of those are shifted, the text is the same. -/
theorem Composed.independent_of_prefix_many :
    let S : Shift Reader := ⟨['-', 'a', 'b', 'b'], 1, Eq, fun _ => rfl, congrArg _, congrArg _, congrArg _⟩
    let c : Context Reader := ⟨Assignment.registry, {}, .warning⟩
    let b : Parser Reader := .convert (.take "b") (.kind Assignment.failed)
    let p : Parser Reader := .seq (.map .nextChar (.function .text)) (.many b)
    let x := p.run (Reader.host.callbacks 3 1) c ⟨⟨⟨1, none⟩, S.source⟩, [], ()⟩
    let y := p.run (Reader.host.callbacks 3 1) c ⟨.ofList ['a', 'b', 'b'], [], ()⟩
    (p.Composed fun use f => Reader.Good use f f) ∧
      (∀ n, (Reader.host.callbacks 3 n).Carries c S Eq Reader.Good) ∧
      x.1 = .returned (.ok (.tuple [.str "a", .list [.span ⟨S.source, 2, 3⟩, .span ⟨S.source, 3, 4⟩]])) ∧
      x.1.Matches (Value.Thrown S Reader.Good) (Outcome.Shifted S) y.1 ∧
      x.2.cursor.Shifted S y.2.cursor := by
  intro S c b p x y
  have hp : p.Composed fun use f => Reader.Good use f f :=
    .seq (.map .nextChar fun _ h => by cases h; exact .text) (.many (.convert (.take "b") _))
  have hh (n : Nat) : (Reader.host.callbacks 3 n).Carries c S Eq Reader.Good := Reader.carries
  obtain ⟨hanswer, hend⟩ : x.1.Matches _ _ y.1 ∧ _ := hp.independent_of_prefix hh rfl [] []
  exact ⟨hp, hh, rfl, hanswer, hend⟩

/-- A parser that is declared infallible and fails with an error that holds a span, and a parser that cannot be
put together and shows one. What is raised shows the span with its bounds, so it is not the same for both
runs. -/
theorem Composed.prefix_quoted :
    let S : Shift Reader := ⟨['a', 'b'], 1, Eq, fun _ => rfl, congrArg _, congrArg _, congrArg _⟩
    let c : Context Reader := ⟨Assignment.registry, {}, .warning⟩
    let refused : Parser Reader := .refine (.convert .nextChar .undeclared) .refused .undeclared
    let p : Parser Reader := .seq (.mapErr refused .refused .infallible) .eof
    let q : Parser Reader := .bind .nextChar .either
    let run (p : Parser Reader) (cursor : Cursor Reader) :=
      (p.run (Reader.host.callbacks 3 1) c ⟨cursor, [], ()⟩).1
    (p.Composed fun use f => Reader.Good use f f) ∧ (q.Composed fun use f => Reader.Good use f f) ∧
      (∀ n, (Reader.host.callbacks 3 n).Carries c S Eq Reader.Good) ∧
      (∃ e e', run p ⟨⟨1, none⟩, S.source⟩ = .raised e ∧ run p (.ofList ['b']) = .raised e' ∧
        e.kindOf = .infallibleViolation ∧ e ≠ e') ∧
      ∃ e e', run q ⟨⟨1, none⟩, S.source⟩ = .raised e ∧ run q (.ofList ['b']) = .raised e' ∧
        e.kindOf = .conversionError ∧ e ≠ e' := by
  intro S c refused p q run
  have hp : p.Composed fun use f => Reader.Good use f f :=
    .seq (.mapErr (.refine (.convert .nextChar _) .refused _) .refusing _) .eof
  have hq : q.Composed fun use f => Reader.Good use f f := .bind .nextChar .either
  refine ⟨hp, hq, fun n => Reader.carries, ⟨_, _, rfl, rfl, rfl, fun h => ?_⟩,
    ⟨_, _, rfl, rfl, rfl, fun h => ?_⟩⟩
  · exact absurd (congrArg (fun e => e.text?.toOption) h) (by decide +kernel)
  · exact absurd (congrArg (fun e => e.text?.toOption) h) (by decide +kernel)

end Parser

end ParserAlgebra
