import Stencil.Json.Reader
import Stencil.Value.Datum

/-!
# JSON as data

Data files hold JSON. A number without point and exponent is a whole number if 64 bits can hold it,
and minus zero and all other numbers are doubles; a number beyond all doubles is a fault. A string
must stand for a text, and lists and objects may be nested 127 deep.

A double is computed from the first digits of the number that 64 bits can hold, times a power of
ten, which is not always the nearest one.

* `JsonTree.toDatum` — the datum that a JSON text is, or what is wrong with it.
-/

namespace Stencil

/-! ### Numbers -/

/-- A whole number of 64 bits times a power of ten. -/
structure Scaled where
  digits : Nat
  exponent : Int
  deriving DecidableEq, Repr

namespace Scaled

/-- Digits before the point: those are taken that fit into 64 bits, and every digit from the first
one on that does not fit counts as a power of ten. -/
def takeWhole (s : Scaled) : Text → Scaled
  | [] => s
  | c :: rest =>
    let digits := 10 * s.digits + digitValue c
    if digits < wordCount then takeWhole { s with digits } rest
    else { s with exponent := s.exponent + (rest.length + 1) }

/-- Digits behind the point: those are taken that fit into 64 bits, and the others are dropped from
the first one on that does not fit. -/
def takeFraction (s : Scaled) : Text → Scaled
  | [] => s
  | c :: rest =>
    let digits := 10 * s.digits + digitValue c
    if digits < wordCount then takeFraction ⟨digits, s.exponent - 1⟩ rest else s

/-- The double nearest to a power of ten. -/
def doublePower (n : Nat) : Double :=
  .ofRatio false (powerOfTen n) 1

/-- `x * 10 ^ exponent` as a double; `none` if it is too large. No power of ten beyond `10 ^ 308` is
a double, so dividing by more than that goes in steps. -/
def scale? (x : Double) (exponent : Int) : Option Double :=
  if 308 < exponent then if x.isZero then some x else none
  else if 0 ≤ exponent then
    let y := x.mul (doublePower exponent.toNat)
    if y.isInfinite then none else some y
  else if -308 ≤ exponent then some (x.div (doublePower exponent.natAbs))
  else if x.isZero then some x
  else scale? (x.div (doublePower 308)) (exponent + 308)
termination_by exponent.natAbs
decreasing_by omega

/-- The double that is computed for the number; `none` if it is too large. -/
def toDouble? (s : Scaled) : Option Double :=
  scale? (.ofInt s.digits) s.exponent

end Scaled

/-- A number of either sign. -/
def Double.withSign (negative : Bool) (x : Double) : Double :=
  if negative then x.neg else x

/-- The datum that a number is. -/
def JsonNumeral.toDatum (n : JsonNumeral) : Except JsonFault Datum :=
  let whole := Scaled.takeWhole ⟨0, 0⟩ n.whole
  if n.fraction.isNone ∧ n.exponent.isNone ∧ whole.exponent = 0 ∧
      (n.negative = true → 1 ≤ whole.digits ∧ whole.digits ≤ 0x8000000000000000) then
    .ok (if n.negative then .signed (-whole.digits) else .unsigned whole.digits)
  else
    let s := whole.takeFraction (n.fraction.getD [])
    match { s with exponent := s.exponent + n.exponent.getD 0 : Scaled }.toDouble? with
    | some x => .ok (.float (x.withSign n.negative))
    | none => .error .numberTooLarge

/-! ### Trees -/

/-- The text that a string stands for, or the fault. -/
def JsonString.toText (s : JsonString) : Except JsonFault Text :=
  match s.text? with
  | some t => .ok t
  | none => .error .halfCharacter

namespace JsonTree

mutual

/-- The datum that a JSON text is, however deep it is nested. -/
def toDatumAtAnyDepth : JsonTree → Except JsonFault Datum
  | null => .ok .absent
  | bool b => .ok (.bool b)
  | number n => n.toDatum
  | string s => s.toText.map .text
  | array items => (itemsToData items).map .sequence
  | object members => (membersToCalls members).map .mapping

/-- The data that the items of a list are. -/
def itemsToData : List JsonTree → Except JsonFault (List Datum)
  | [] => .ok []
  | item :: rest => do
    let datum ← item.toDatumAtAnyDepth
    return datum :: (← itemsToData rest)

/-- The members of an object, as the calls that describe a mapping. -/
def membersToCalls : List (JsonString × JsonTree) → Except JsonFault (List (MapRole × Datum))
  | [] => .ok []
  | (name, v) :: rest => do
    let key ← name.toText
    let datum ← v.toDatumAtAnyDepth
    return (.key, .text key) :: (.value, datum) :: (← membersToCalls rest)

end

/-- How deep lists and objects may be nested. -/
def maxDepth : Nat := 127

/-- The datum that a JSON text is. -/
def toDatum (tree : JsonTree) : Except JsonFault Datum :=
  if maxDepth < tree.depth then .error .tooDeep else tree.toDatumAtAnyDepth

end JsonTree

/-- The datum that a text in JSON describes. -/
def Datum.ofJson (t : Text) : Except JsonFault Datum :=
  match JsonTree.ofText? t with
  | some tree => tree.toDatum
  | none => .error .malformed

end Stencil
