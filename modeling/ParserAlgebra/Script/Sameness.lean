import ParserAlgebra.Script.Call
import ParserAlgebra.Value.Equality

/-!
# The same object

Whether a conversion hands back the very object that it was given. Most plain data is made afresh
whenever it is made; a few values exist only once (`isShared`), objects have marks, and for the rest
it is the function that tells (`functionHandsBack`).
-/

namespace ParserAlgebra.Script

/-- The values that exist only once: nothing, the truth values, small integers, the shortest texts,
the empty tuple, the reasons of a mismatch and the kinds. -/
def isShared : Value Object → Bool
  | .none | .bool _ | .mismatch _ | .kind _ => true
  | .int n => -5 ≤ n && n ≤ 256
  | .str s => s.isEmpty || s.length = 1 && s.toList.all fun c => c.toNat < 256
  | .tuple items => items.isEmpty
  | _ => false

/-- Two values that are one wherever they come from. -/
def sameAnywhere (v w : Value Object) : Bool :=
  v.mark != 0 && v.mark = w.mark ||
    isShared v && isShared w && v.kindOf = w.kindOf && (v.equal w).toOption = some true

/-- Calling a plain kind with a value of that very kind gives the value itself. -/
def kindHandsBack (k : Kind) (v : Value Object) : Bool :=
  [Kind.int, Kind.str, Kind.tuple].contains k && v.kindOf = k

/-- Whether adding `n` to `v`, which gives `w`, gives back `v` itself: a plain text with a plain text
of no characters after it, or a plain tuple without further items. A text that is no plain one is
copied, even if there is nothing to copy. -/
def addsNothing (kind? : String → Option Kind) (n : ValueExpr) (v w : Value Object) : Bool :=
  match v, w with
  | .str s, .str t =>
    s.length = t.length &&
      match n with
      | .call name _ => s.isEmpty || kind? name = some .str
      | _ => true
  | .tuple xs, .tuple ys => xs.length = ys.length
  | _, _ => sameAnywhere v w

mutual
/-- Whether a function that gives `w` for `v` gives the same object; `kind?` tells what the names of
kinds stand for. -/
def functionHandsBack (kind? : String → Option Kind) :
    FunctionExpr → Value Object → Value Object → Bool
  | .mk _ body, v, w => bodyHandsBack kind? body v w
def bodyHandsBack (kind? : String → Option Kind) :
    FunctionBody → Value Object → Value Object → Bool
  | .identity, _, _ => true
  | .text, v, w => kindHandsBack .str v || sameAnywhere v w
  | .reverse, v, w => (v.chars? = some "") && sameAnywhere v w
  | .wrap (.named name), v, w =>
    ((kind? name).map fun k => kindHandsBack k v).getD false || sameAnywhere v w
  | .add n, v, w => addsNothing kind? n v w
  | .ifText text yes no, v, w =>
    if v.text?.toOption = some text then functionHandsBack kind? yes v w
    else functionHandsBack kind? no v w
  | _, v, w => sameAnywhere v w
end

/-- Whether converting `v` into the declared kind, which gives `w`, gives the same object. A value
that needs no conversion is handed back. -/
def conversionHandsBack (r : Registry Object) (kind? : String → Option Kind)
    (target : Declared Object) (v w : Value Object) : Bool :=
  let converted (c : Option (Conversion Object)) : Bool :=
    match c with
    | some (.function (.function f)) => functionHandsBack kind? f v w
    | _ => sameAnywhere v w
  match target with
  | .kind t => t = .object || v.isA t || converted (r.find? v.kindOf t)
  | .plain p => converted (r.stray? v.kindOf p).toOption.join

end ParserAlgebra.Script
