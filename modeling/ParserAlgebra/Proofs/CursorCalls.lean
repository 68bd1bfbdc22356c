import ParserAlgebra.Cursor.Place
import Mathlib.Data.List.Forall2

/-!
# Calls of the cursor

A program takes characters, moves on, and goes back, with any values as arguments. What each call can do
is said once (`Cursor.Performs`): it moves the cursor inside its input and answers, or it is refused and
leaves the cursor where it was. From this follows what holds after every row of calls, and that the spans
taken one after the other are the part of the input between their ends (`Cursor.Sound`).
-/

namespace ParserAlgebra

variable {ω : Type} {source : List Char}

/-- A fault is met, whether what it tells of can be told or not. -/
theorem bind_error_ne_ok {α β : Type} {x : Except Fault α} {f : α → Except Fault β} {b : β}
    (h : ∀ a, f a ≠ .ok b) : (x >>= f) ≠ .ok b := by
  rcases x with g | a
  · exact fun h' => by cases h'
  · exact h a

/-! ## Marks as they are given -/

/-- The place is one that a value gives which counts as a number. -/
structure Mark.Given (m : Mark ω) : Prop where
  toInt? : m.value.toInt? = some (m.pos : Int)
  ofValue : Mark.ofValue m.value = m

theorem Mark.given_mk (pos : Nat) : (⟨pos, none⟩ : Mark ω).Given := ⟨rfl, rfl⟩

theorem Mark.ofValue_of_ne_int {v : Value ω} (h : ∀ k, v ≠ .int k) :
    Mark.ofValue v = ⟨(v.toInt?.getD 0).toNat, some v⟩ := by
  cases v with
  | int k => exact absurd rfl (h k)
  | _ => rfl

theorem Mark.given_ofValue {v : Value ω} {n : Nat} (h : v.toInt? = some (n : Int)) :
    (Mark.ofValue v).pos = n ∧ (Mark.ofValue v).Given := by
  by_cases hv : ∃ k, v = .int k
  · obtain ⟨k, rfl⟩ := hv
    obtain rfl : k = n := by simpa [Value.toInt?, Value.plain] using h
    exact ⟨rfl, given_mk n⟩
  · rw [ofValue_of_ne_int (not_exists.1 hv), h]
    exact ⟨rfl, h, by rw [value, Option.getD_some, ofValue_of_ne_int (not_exists.1 hv), h]⟩

/-! ## Spans -/

/-- A span of the input from one place to another. -/
structure Value.PartOf [HostObject ω] (source : List Char) (i j : Nat) (v : Value ω) : Prop where
  start : ∃ a, v.get .start = .ok a ∧ a.toInt? = some (i : Int)
  stop : ∃ b, v.get .stop = .ok b ∧ b.toInt? = some (j : Int)
  text : v.text? = .ok (String.ofList ((source.drop i).take (j - i)))
  fits : i ≤ j ∧ j ≤ source.length

variable [HostObject ω]

theorem Value.PartOf.ne_none {i j : Nat} {v : Value ω} (h : v.PartOf source i j) : v ≠ .none := by
  rintro rfl
  obtain ⟨_, h, -⟩ := h.start
  cases h

theorem Mark.partOf_spanTo {a b : Mark ω} (ha : a.Given) (hb : b.Given) (h : a.pos ≤ b.pos)
    (hs : b.pos ≤ source.length) : (Mark.spanTo source a b).PartOf source a.pos b.pos := by
  unfold Mark.spanTo
  split
  · refine ⟨⟨_, rfl, rfl⟩, ⟨_, rfl, rfl⟩, ?_, h, hs⟩
    simp [Value.text?, Span.text, Span.chars]
  · refine ⟨⟨a.value, rfl, ha.toInt?⟩, ⟨b.value, rfl, hb.toInt?⟩, ?_, h, hs⟩
    have hw : Wording.ofKind .span = .span := by decide
    simp [Value.text?, hw, Attributes.get?, Span.text, Span.chars]

section Bounds

variable {a b : Value ω} {i j : Int}

theorem Value.length?_ofList :
    (Value.str (String.ofList source) : Value ω).length? = .ok source.length := by
  simp [Value.length?, Value.plain]

theorem Value.bounds?_of_fits (ha : a.toInt? = some i) (hb : b.toInt? = some j)
    (h : Span.Fits source i j) :
    Value.bounds? (.str (String.ofList source)) a b = .ok (i, j) := by
  obtain ⟨hi, hij, hj⟩ := h
  unfold Value.bounds? Value.orderedAfter
  rw [ha, hb, length?_ofList]
  change (if i < 0 then _ else if j < i then _ else if (source.length : Int) < j then _ else _) = _
  rw [if_neg (Int.not_lt.2 hi), if_neg (Int.not_lt.2 hij), if_neg (Int.not_lt.2 hj)]
  rfl

theorem Value.bounds?_ok (h : Value.bounds? (.str (String.ofList source)) a b = .ok (i, j)) :
    a.toInt? = some i ∧ b.toInt? = some j ∧ Span.Fits source i j := by
  have hinvalid {x : Int × Int} : (do
      let s ← a.text?
      let t ← b.text?
      .error (.invalidSpan s t (← (Value.str (String.ofList source) : Value ω).length?)) :
        Except Fault (Int × Int)) ≠ .ok x :=
    bind_error_ne_ok fun _ => bind_error_ne_ok fun _ => bind_error_ne_ok fun _ h => by cases h
  unfold Value.bounds? Value.orderedAfter at h
  rcases ha : a.toInt? with _ | i' <;> rw [ha] at h
  · cases h
  · change (if i' < 0 then _ else _) = _ at h
    split at h
    · exact absurd h hinvalid
    · rcases hb : b.toInt? with _ | j' <;> rw [hb] at h
      · cases h
      · change (if j' < i' then _ else _) = _ at h
        split at h
        · exact absurd h hinvalid
        · rw [length?_ofList] at h
          change (if (source.length : Int) < j' then _ else _) = _ at h
          split at h
          · rw [← length?_ofList (ω := ω)] at h
            exact absurd h hinvalid
          · obtain ⟨rfl, rfl⟩ := Prod.mk.inj (Except.ok.inj h)
            exact ⟨rfl, rfl, by unfold Span.Fits; omega⟩

end Bounds

omit [HostObject ω] in
theorem Value.finish_span {d : Value.Draft ω} {s : String} {a b : Value ω}
    (hs : d.attributes.get? .source = some (.str s)) (ha : d.attributes.get? .start = some a)
    (hb : d.attributes.get? .stop = some b) :
    Value.finish .span d = Mark.spanTo s.toList (.ofValue a) (.ofValue b) := by
  unfold Value.finish
  rw [if_neg (by decide), if_neg (by decide), if_neg (by decide), if_pos rfl]
  simp [hs, ha, hb, Value.chars?, Value.plain]

/-- A span of a text is made exactly if its bounds are in order and inside. -/
theorem construct_span (a b : Value ω) :
    Value.construct .span [.str (String.ofList source), a, b] =
      (Value.bounds? (.str (String.ofList source)) a b).map fun _ =>
        Mark.spanTo source (.ofValue a) (.ofValue b) := by
  have hl : Kind.span.lineage = [.span, .object] := by decide
  have ht : Value.takesArguments .span = true := by decide
  have hm : Value.Maker.ofKind? .span = none := by decide
  have hf (x : Attribute) : Value.fixes .span x = false := by cases x <;> decide
  have hallot : Value.allot .span [.str (String.ofList source), a, b] = .ok .empty := by
    simp [Value.allot, hm]
  have hprep : Value.prepare .span Kind.span.lineage [.str (String.ofList source), a, b] .empty =
      Value.prepareSpan .span .span [.str (String.ofList source), a, b] .empty := by
    rw [hl]
    rfl
  unfold Value.construct
  rw [if_neg (by decide), if_neg (by decide), if_neg (by simp [ht]), hallot]
  change (Value.prepare .span Kind.span.lineage _ .empty).map (Value.finish .span) = _
  rw [hprep]
  simp only [Value.prepareSpan, Value.Draft.assign, hf, Bool.false_eq_true, if_false]
  rcases Value.bounds? (.str (String.ofList source)) a b with f | ⟨i, j⟩
  · rfl
  · refine congrArg Except.ok ?_
    rw [Value.finish_span (s := String.ofList source) (a := a) (b := b) rfl rfl rfl,
      String.toList_ofList]

/-! ## Moves -/

namespace Cursor

/-- The cursor is at a place of the input. -/
structure Inside (source : List Char) (d : Cursor ω) : Prop where
  same : d.source = source
  within : d.pos ≤ source.length
  given : d.toMark.Given

variable {d e : Cursor ω} {n v : Value ω}

omit [HostObject ω] in
theorem Inside.onTo (h : d.Inside source) {pos : Nat} (hpos : pos ≤ source.length) :
    (d.onTo pos).Inside source := ⟨h.same, hpos, Mark.given_mk pos⟩

omit [HostObject ω] in
theorem Inside.backTo (h : d.Inside source) (he : e.Inside source) :
    (d.backTo e.toMark).Inside source := ⟨h.same, he.within, he.given⟩

theorem inside_of_at? (h : at? source v = .ok d) : d.Inside source := by
  unfold at? Value.orderedAfter at h
  rcases hn : v.toInt? with _ | n <;> rw [hn] at h
  · cases h
  · change (if 0 ≤ n ∧ n ≤ source.length then _ else _) = _ at h
    split at h
    · next hin =>
      obtain rfl := Except.ok.inj h
      obtain ⟨k, rfl⟩ := Int.eq_ofNat_of_zero_le hin.1
      obtain ⟨hpos, hgiven⟩ := Mark.given_ofValue hn
      exact ⟨rfl, by rw [hpos]; omega, hgiven⟩
    · exact absurd h (bind_error_ne_ok fun _ h => by cases h)

theorem advance_ok (h : d.advance n = .ok e) :
    ∃ k : Nat, n.toInt? = some (k : Int) ∧ d.pos + k ≤ d.source.length ∧ e = d.onTo (d.pos + k) := by
  unfold advance Value.orderedBefore at h
  rcases hn : n.toInt? with _ | k <;> rw [hn] at h
  · cases h
  · change (if k < 0 then _ else if (d.source.length : Int) < d.pos + k then _ else _) = _ at h
    split at h
    · cases h
    · next hneg =>
      split at h
      · exact absurd h (bind_error_ne_ok fun _ => bind_error_ne_ok fun _ h => by cases h)
      · next hlong =>
        obtain ⟨k, rfl⟩ := Int.eq_ofNat_of_zero_le (Int.not_lt.1 hneg)
        exact ⟨k, rfl, by omega, (Except.ok.inj h).symm⟩

theorem restore_ok (h : d.restore n = .ok e) :
    ∃ k : Nat, n.toInt? = some (k : Int) ∧ k ≤ d.source.length ∧ e = d.backTo (.ofValue n) := by
  unfold restore Value.orderedAfter at h
  rcases hn : n.toInt? with _ | k <;> rw [hn] at h
  · cases h
  · change (if 0 ≤ k ∧ k ≤ d.source.length then _ else _) = _ at h
    split at h
    · next hin =>
      obtain ⟨k, rfl⟩ := Int.eq_ofNat_of_zero_le hin.1
      exact ⟨k, rfl, by omega, (Except.ok.inj h).symm⟩
    · exact absurd h (bind_error_ne_ok fun _ h => by cases h)

theorem Inside.sliceFrom_ok (hd : d.Inside source) (h : d.sliceFrom n = .ok v) :
    ∃ i : Nat, v.PartOf source i d.pos := by
  unfold sliceFrom at h
  rw [hd.same, construct_span, hd.given.ofValue] at h
  rcases hb : Value.bounds? (.str (String.ofList source)) n d.value with f | ⟨i, j⟩ <;> rw [hb] at h
  · cases h
  · obtain rfl := Except.ok.inj h
    obtain ⟨hi, hj, hfits⟩ := Value.bounds?_ok hb
    obtain rfl : (d.pos : Int) = j := Option.some.inj (hd.given.toInt?.symm.trans hj)
    obtain ⟨i, rfl⟩ := Int.eq_ofNat_of_zero_le hfits.1
    obtain ⟨rfl, hgiven⟩ := Mark.given_ofValue hi
    exact ⟨_, Mark.partOf_spanTo hgiven hd.given (Int.ofNat_le.1 hfits.2.1) hd.within⟩

/-- The span over the characters that are moved over can always be made. -/
theorem Inside.construct_span (hd : d.Inside source) {k : Nat} (hk : d.pos + k ≤ source.length) :
    Value.construct .span [.str (String.ofList source), d.value, (d.onTo (d.pos + k)).value] =
      .ok (d.spanTo (d.pos + k)) := by
  have hstop : (d.onTo (d.pos + k)).value.toInt? = some ((d.pos + k : Nat) : Int) := rfl
  have hfits : Span.Fits source d.pos (d.pos + k : Nat) := by unfold Span.Fits; omega
  rw [ParserAlgebra.construct_span, Value.bounds?_of_fits hd.given.toInt? hstop hfits,
    hd.given.ofValue, spanTo, hd.same]
  rfl

theorem Inside.partOf_spanTo (hd : d.Inside source) {k : Nat} (hk : d.pos + k ≤ source.length) :
    (d.spanTo (d.pos + k)).PartOf source d.pos (d.pos + k) := by
  rw [spanTo, hd.same]
  exact Mark.partOf_spanTo hd.given (Mark.given_mk _) (Nat.le_add_right _ _) hk

/-! ## Calls -/

/-- What a program may call on a cursor, with any values as arguments. -/
inductive Call (ω : Type) where
  | advance (n : Value ω)
  | take (n : Value ω)
  | tryTake (n : Value ω)
  | save
  | restore (mark : Value ω)
  | sliceFrom (mark : Value ω)
  | peek
  | startsWith (literal : String)
  | lineCol (pos : Option Int)

/-- The answer of a move, and the cursor after it: the one from before if the move is refused. -/
def settled (d : Cursor ω) (x : Except Fault (Value ω × Cursor ω)) :
    Except Fault (Value ω) × Cursor ω :=
  match x with
  | .ok (v, e) => (.ok v, e)
  | .error f => (.error f, d)

/-- Moves over `n` characters, and makes the span over them when the cursor has moved already. -/
def taken (d : Cursor ω) (n : Value ω) : Except Fault (Value ω) × Cursor ω :=
  match d.advance n with
  | .ok e => (Value.construct .span [.str (String.ofList e.source), d.value, e.value], e)
  | .error f => (.error f, d)

def perform (d : Cursor ω) : Call ω → Except Fault (Value ω) × Cursor ω
  | .advance n => d.settled ((d.advance n).map (.none, ·))
  | .take n => d.taken n
  | .tryTake n =>
    match d.further n with
    | .ok stop => if d.source.length < stop then (.ok .none, d) else d.taken n
    | .error f => (.error f, d)
  | .save => (.ok d.value, d)
  | .restore mark => d.settled ((d.restore mark).map (.none, ·))
  | .sliceFrom mark => (d.sliceFrom mark, d)
  | .peek => (.ok ((d.peek?.map fun c => .str (String.singleton c)).getD .none), d)
  | .startsWith literal => (.ok (.bool (d.startsWith literal.toList)), d)
  | .lineCol pos => (.ok (.tuple [.int (d.lineCol pos).1, .int (d.lineCol pos).2]), d)

theorem Inside.taken_of_advance (hd : d.Inside source) (h : d.advance n = .ok e) :
    ∃ k : Nat, n.toInt? = some (k : Int) ∧ d.pos + k ≤ source.length ∧ e = d.onTo (d.pos + k) ∧
      d.taken n = (.ok (d.spanTo (d.pos + k)), e) := by
  obtain ⟨k, hn, hk, rfl⟩ := advance_ok h
  rw [hd.same] at hk
  refine ⟨k, hn, hk, rfl, ?_⟩
  have hspan := hd.construct_span hk
  unfold taken
  rw [h]
  change (Value.construct .span [.str (String.ofList d.source), _, _], _) = _
  rw [hd.same, hspan]

/-- All that a call can do. -/
inductive Performs (source : List Char) (d : Cursor ω) :
    Call ω → Except Fault (Value ω) → Cursor ω → Prop
  | refused {call : Call ω} (f : Fault) : Performs source d call (.error f) d
  | advanced {n : Value ω} {k : Nat} (hn : n.toInt? = some (k : Int))
      (hk : d.pos + k ≤ source.length) :
      Performs source d (.advance n) (.ok .none) (d.onTo (d.pos + k))
  | taken {n v : Value ω} {k : Nat} (hn : n.toInt? = some (k : Int))
      (hv : v.PartOf source d.pos (d.pos + k)) :
      Performs source d (.take n) (.ok v) (d.onTo (d.pos + k))
  | tried {n v : Value ω} {k : Nat} (hn : n.toInt? = some (k : Int))
      (hv : v.PartOf source d.pos (d.pos + k)) :
      Performs source d (.tryTake n) (.ok v) (d.onTo (d.pos + k))
  | tooFew {n : Value ω} {k : Int} (hn : n.toInt? = some k) (hk : source.length < d.pos + k) :
      Performs source d (.tryTake n) (.ok .none) d
  | restored {mark : Value ω} {k : Nat} (hm : mark.toInt? = some (k : Int))
      (hk : k ≤ source.length) :
      Performs source d (.restore mark) (.ok .none) (d.backTo (.ofValue mark))
  | sliced {mark v : Value ω} {i : Nat} (hv : v.PartOf source i d.pos) :
      Performs source d (.sliceFrom mark) (.ok v) d
  | saved : Performs source d .save (.ok d.value) d
  | peeked (v : Value ω) : Performs source d .peek (.ok v) d
  | compared (literal : String) (v : Value ω) : Performs source d (.startsWith literal) (.ok v) d
  | located (pos : Option Int) (v : Value ω) : Performs source d (.lineCol pos) (.ok v) d

theorem Inside.performs_taken (hd : d.Inside source) (n : Value ω) :
    (∃ f, d.taken n = (.error f, d)) ∨ ∃ k : Nat, ∃ v, n.toInt? = some (k : Int) ∧
      v.PartOf source d.pos (d.pos + k) ∧ d.taken n = (.ok v, d.onTo (d.pos + k)) := by
  rcases h : d.advance n with f | e
  · exact .inl ⟨f, by unfold taken; rw [h]⟩
  · obtain ⟨k, hn, hk, rfl, htaken⟩ := hd.taken_of_advance h
    exact .inr ⟨k, _, hn, hd.partOf_spanTo hk, htaken⟩

theorem Inside.performs (hd : d.Inside source) (call : Call ω) :
    Performs source d call (d.perform call).1 (d.perform call).2 := by
  cases call with
  | advance n =>
    simp only [perform]
    rcases h : d.advance n with f | e
    · exact .refused f
    · obtain ⟨k, hn, hk, rfl⟩ := advance_ok h
      exact .advanced hn (hd.same ▸ hk)
  | take n =>
    change Performs source d _ (d.taken n).1 (d.taken n).2
    obtain ⟨f, h⟩ | ⟨k, v, hn, hv, h⟩ := hd.performs_taken n <;> rw [h]
    · exact .refused f
    · exact .taken hn hv
  | tryTake n =>
    simp only [perform, further]
    rcases hn : n.toInt? with _ | k
    · exact .refused _
    · dsimp only
      split
      · next hk => exact .tooFew hn (hd.same ▸ hk)
      · obtain ⟨f, h⟩ | ⟨k, v, hn, hv, h⟩ := hd.performs_taken n <;> rw [h]
        · exact .refused f
        · exact .tried hn hv
  | save => exact .saved
  | restore mark =>
    simp only [perform]
    rcases h : d.restore mark with f | e
    · exact .refused f
    · obtain ⟨k, hm, hk, rfl⟩ := restore_ok h
      exact .restored hm (hd.same ▸ hk)
  | sliceFrom mark =>
    simp only [perform]
    rcases h : d.sliceFrom mark with f | v
    · exact .refused f
    · obtain ⟨i, hv⟩ := hd.sliceFrom_ok h
      exact .sliced hv
  | peek => exact .peeked _
  | startsWith literal => exact .compared _ _
  | lineCol pos => exact .located _ _

theorem Performs.inside {call : Call ω} {answer : Except Fault (Value ω)} (hd : d.Inside source)
    (h : Performs source d call answer e) : e.Inside source := by
  cases h with
  | advanced _ hk => exact hd.onTo hk
  | taken _ hv | tried _ hv => exact hd.onTo hv.fits.2
  | restored hm hk =>
    obtain ⟨hpos, hgiven⟩ := Mark.given_ofValue hm
    exact ⟨hd.same, hpos ▸ hk, hgiven⟩
  | _ => exact hd

/-! ## Rows of calls -/

/-- The cursor after some calls, one after the other. A call that is refused does not end them. -/
def after (d : Cursor ω) (calls : List (Call ω)) : Cursor ω :=
  calls.foldl (fun d call => (d.perform call).2) d

theorem Inside.after (hd : d.Inside source) (calls : List (Call ω)) :
    (d.after calls).Inside source := by
  induction calls generalizing d with
  | nil => exact hd
  | cons call calls ih => exact ih ((hd.performs call).inside hd)

namespace Call

/-- The cursor may be moved, but not by taking characters. -/
def Relocates : Call ω → Prop
  | advance _ | restore _ => True
  | _ => False

/-- The span that is taken, if one is. -/
def handed : Call ω → Except Fault (Value ω) → List (Value ω)
  | take _, .ok v => [v]
  | tryTake _, .ok .none => []
  | tryTake _, .ok v => [v]
  | _, _ => []

omit [HostObject ω] in
@[simp] theorem handed_error (call : Call ω) (f : Fault) : call.handed (.error f) = [] := by
  cases call <;> rfl

theorem handed_tryTake {i j : Nat} (hv : v.PartOf source i j) :
    (tryTake n).handed (.ok v) = [v] := by
  cases v with
  | none => exact absurd rfl hv.ne_none
  | _ => rfl

end Call

def spans (d : Cursor ω) : List (Call ω) → List (Value ω)
  | [] => []
  | call :: calls => call.handed (d.perform call).1 ++ spans (d.perform call).2 calls

/-- Each span begins where the one before it ends, the first at `i`, and the last ends at `k`. -/
inductive Adjacent (source : List Char) : Nat → List (Value ω) → Nat → Prop
  | nil (i : Nat) : Adjacent source i [] i
  | cons {i j k : Nat} {v : Value ω} {vs : List (Value ω)} (hv : v.PartOf source i j)
      (rest : Adjacent source j vs k) : Adjacent source i (v :: vs) k

namespace Adjacent

variable {i j k : Nat} {vs ws : List (Value ω)}

theorem append (hv : Adjacent source i vs j) (hw : Adjacent source j ws k) :
    Adjacent source i (vs ++ ws) k := by
  induction hv with
  | nil i => exact hw
  | cons hv _ ih => exact .cons hv (ih hw)

theorem le (h : Adjacent source i vs k) : i ≤ k := by
  induction h with
  | nil i => exact Nat.le_refl i
  | cons hv _ ih => exact Nat.le_trans hv.fits.1 ih

/-- Adjacent spans are the part of the input from the start of the first to the end of the last. -/
theorem texts (h : Adjacent source i vs k) :
    ∃ ts : List (List Char), List.Forall₂ (fun v t => v.text? = .ok (String.ofList t)) vs ts ∧
      ts.flatten = (source.drop i).take (k - i) := by
  induction h with
  | nil i => exact ⟨[], .nil, by simp⟩
  | @cons i j k v vs hv rest ih =>
    obtain ⟨ts, hts, hflat⟩ := ih
    refine ⟨_ :: ts, .cons hv.text hts, ?_⟩
    -- What is taken up to `k` is cut at `j`.
    have hsplit : k - i = (j - i) + (k - j) := by
      have := hv.fits.1
      have := rest.le
      omega
    have hdrop : source.drop j = (source.drop i).drop (j - i) := by
      rw [List.drop_drop, Nat.add_sub_cancel' hv.fits.1]
    rw [List.flatten_cons, hflat, hsplit, List.take_add, hdrop]

end Adjacent

theorem Performs.adjacent {call : Call ω} {answer : Except Fault (Value ω)}
    (h : Performs source d call answer e) (hc : ¬ call.Relocates) :
    Adjacent source d.pos (call.handed answer) e.pos := by
  cases h with
  | refused f =>
    rw [Call.handed_error]
    exact .nil _
  | advanced => exact absurd trivial hc
  | restored => exact absurd trivial hc
  | taken hn hv => exact .cons hv (.nil _)
  | tried hn hv =>
    rw [Call.handed_tryTake hv]
    exact .cons hv (.nil _)
  | _ => exact .nil _

theorem Inside.adjacent (hd : d.Inside source) {calls : List (Call ω)}
    (hc : ∀ call ∈ calls, ¬ call.Relocates) :
    Adjacent source d.pos (d.spans calls) (d.after calls).pos := by
  induction calls generalizing d with
  | nil => exact .nil _
  | cons call calls ih =>
    obtain ⟨hcall, hcalls⟩ := List.forall_mem_cons.1 hc
    have hstep := hd.performs call
    exact (hstep.adjacent hcall).append (ih (hstep.inside hd) hcalls)

/-- What can be relied on at a cursor. -/
structure Sound (source : List Char) (d : Cursor ω) : Prop where
  same : d.source = source
  within : d.pos ≤ source.length
  refused : ∀ {call f e}, d.perform call = (.error f, e) → e = d
  none : ∀ {n e}, d.perform (.tryTake n) = (.ok .none, e) → e = d
  take : ∀ {n v e}, d.perform (.take n) = (.ok v, e) → v.PartOf source d.pos e.pos
  tryTake : ∀ {n v e}, d.perform (.tryTake n) = (.ok v, e) →
    v = .none ∨ v.PartOf source d.pos e.pos
  sliceFrom : ∀ {m v e}, d.perform (.sliceFrom m) = (.ok v, e) → ∃ i, v.PartOf source i d.pos
  /-- As long as nothing else moves the cursor, what is taken is the input from here on. -/
  adjacent : ∀ {calls : List (Call ω)}, (∀ call ∈ calls, ¬ call.Relocates) →
    Adjacent source d.pos (d.spans calls) (d.after calls).pos ∧
      ∃ ts : List (List Char),
        List.Forall₂ (fun v t => v.text? = .ok (String.ofList t)) (d.spans calls) ts ∧
          ts.flatten = (source.drop d.pos).take ((d.after calls).pos - d.pos)

theorem Inside.sound (hd : d.Inside source) : d.Sound source := by
  have hperforms {call : Call ω} {answer : Except Fault (Value ω)} {e : Cursor ω}
      (h : d.perform call = (answer, e)) : Performs source d call answer e := by
    have hp := hd.performs call
    rwa [h] at hp
  refine ⟨hd.same, hd.within, fun h => ?_, fun h => ?_, fun h => ?_, fun h => ?_, fun h => ?_,
    fun hc => ⟨hd.adjacent hc, (hd.adjacent hc).texts⟩⟩
  · cases hperforms h with
    | refused f => rfl
  · cases hperforms h with
    | tried hn hv => exact absurd rfl hv.ne_none
    | tooFew => rfl
  · cases hperforms h with
    | taken hn hv => exact hv
  · cases hperforms h with
    | tried hn hv => exact .inr hv
    | tooFew => exact .inl rfl
  · cases hperforms h with
    | sliced hv => exact ⟨_, hv⟩

end Cursor

end ParserAlgebra
