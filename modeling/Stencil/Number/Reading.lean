import Stencil.Number.Digits
import Stencil.Number.Double

/-!
# Reading fractional numbers

A decimal number in text is a sign, digits with at most one point among them, and perhaps an
exponent; infinities and the number that is none have names, in any case. The text stands for the
nearest double, or for the nearest single-precision number, which is a double too.
-/

namespace Stencil

/-- A **decimal fraction** `± digits * 10 ^ exponent`. -/
structure DecimalFraction where
  negative : Bool
  digits : Nat
  exponent : Int
  deriving DecidableEq, Repr

namespace DecimalFraction

/-- The number as a quotient, with powers of ten cut to what can still matter: beyond
`10 ^ 400` all numbers are too large for any format, and below `10 ^ -400` all are too small. -/
def ratio (d : DecimalFraction) : Nat × Nat :=
  let magnitude := d.exponent + (decimal d.digits).length
  if d.digits = 0 || magnitude < -400 then (0, 1)
  else if 400 < magnitude then (powerOfTen 400, 1)
  else (d.digits * powerOfTen d.exponent.toNat, powerOfTen (-d.exponent).toNat)

/-- The double nearest to the number. -/
def toDouble (d : DecimalFraction) : Double :=
  let (num, den) := d.ratio
  Double.ofRatio d.negative num den

/-- The single-precision number nearest to the number, as the double that equals it. -/
def toSingle (d : DecimalFraction) : Double :=
  let (num, den) := d.ratio
  match FloatFormat.single.round num den with
  | some (m, e) => Double.ofBinary d.negative m e
  | none => .infinite d.negative

end DecimalFraction

/-- The longest run of digits at the front, and the rest. -/
def spanDigits (t : Text) : Text × Text :=
  (t.takeWhile isDigit, t.dropWhile isDigit)

/-- An exponent at the end of a number: nothing, or a letter e, perhaps a sign, and digits. -/
def exponent? : Text → Option Int
  | [] => some 0
  | c :: rest => if c = 'e' || c = 'E' then integer? rest else none

/-- A number without its sign, read as digits, a point and an exponent. -/
def fraction? (negative : Bool) (t : Text) : Option DecimalFraction :=
  let (whole, rest) := spanDigits t
  let (part, rest) := match rest with
    | '.' :: rest => spanDigits rest
    | _ => ([], rest)
  if whole.isEmpty && part.isEmpty then none
  else (exponent? rest).map fun e => ⟨negative, digitsValue (whole ++ part), e - part.length⟩

/-- What a number in text is: a decimal fraction, or one of the values that have names. -/
inductive NumberText where
  | fraction (d : DecimalFraction)
  | infinite (negative : Bool)
  | nan
  deriving DecidableEq, Repr

/-- Reads a number in text; `none` if it is not one. -/
def NumberText.ofText? (t : Text) : Option NumberText :=
  let (negative, t) := match t with
    | '-' :: t => (true, t)
    | '+' :: t => (false, t)
    | _ => (false, t)
  let name := t.map Char.toLower
  if name = "inf".toList || name = "infinity".toList then some (.infinite negative)
  else if name = "nan".toList then some .nan
  else (fraction? negative t).map .fraction

/-- The double nearest to a number in text. -/
def Double.ofText? (t : Text) : Option Double :=
  (NumberText.ofText? t).map fun
    | .fraction d => d.toDouble
    | .infinite negative => .infinite negative
    | .nan => .nan

/-- The single-precision number nearest to a number in text, as a double. -/
def Double.ofSingleText? (t : Text) : Option Double :=
  (NumberText.ofText? t).map fun
    | .fraction d => d.toSingle
    | .infinite negative => .infinite negative
    | .nan => .nan

end Stencil
