import Stencil.Number.Rounding

/-!
# Doubles

The fractional numbers of templates and data files are the 64-bit binary floating-point numbers. A
finite one is its sign, its significand and its exponent, so that every operation is exact
arithmetic followed by one rounding, and can be computed inside a proof.
-/

namespace Stencil

/-- A **64-bit floating-point number**: `± significand * 2 ^ exponent`, an infinity, or the result
of an operation that has none. Every function that makes one gives the significand as many bits as
it can have, so equal numbers differ at most in the sign of zero. -/
inductive Double where
  | nan
  | infinite (negative : Bool)
  | finite (negative : Bool) (significand : Nat) (exponent : Int)
  deriving DecidableEq, Repr

namespace Double

/-- The double nearest to `± num / den`; an infinity if that lies beyond the largest one. -/
def ofRatio (negative : Bool) (num den : Nat) : Double :=
  match FloatFormat.double.round num den with
  | some (m, e) => .finite negative m e
  | none => .infinite negative

/-- The double nearest to `± m * 2 ^ e`. -/
def ofBinary (negative : Bool) (m : Nat) (e : Int) : Double :=
  if 0 ≤ e then ofRatio negative (m * powerOfTwo e.toNat) 1
  else ofRatio negative m (powerOfTwo (-e).toNat)

/-- The double nearest to a whole number. -/
def ofInt (n : Int) : Double :=
  ofRatio (n < 0) n.natAbs 1

/-- Whether `x` is zero, of either sign. -/
def isZero : Double → Bool
  | .finite _ m _ => m = 0
  | _ => false

/-- Whether `x` is beyond all finite numbers. -/
def isInfinite : Double → Bool
  | .infinite _ => true
  | _ => false

/-- `x` with the other sign. -/
def neg : Double → Double
  | .nan => .nan
  | .infinite s => .infinite !s
  | .finite s m e => .finite (!s) m e

/-- Whether two numbers are equal as numbers: `nan` equals nothing, and the two zeros are equal. -/
def equals : Double → Double → Bool
  | .infinite s, .infinite t => s = t
  | .finite s m e, .finite t n d =>
    (m = 0 && n = 0) ||
      (s = t && m * powerOfTwo (e - min e d).toNat = n * powerOfTwo (d - min e d).toNat)
  | _, _ => false

/-- The double nearest to a product. -/
def mul : Double → Double → Double
  | .finite s m e, .finite t n d => ofBinary (s != t) (m * n) (e + d)
  | .nan, _ => .nan
  | _, .nan => .nan
  | .infinite s, .infinite t => .infinite (s != t)
  | .infinite s, .finite t n _ => if n = 0 then .nan else .infinite (s != t)
  | .finite s m _, .infinite t => if m = 0 then .nan else .infinite (s != t)

/-- The double nearest to a quotient. -/
def div : Double → Double → Double
  | .finite s m e, .finite t n d =>
    if n = 0 then (if m = 0 then .nan else .infinite (s != t))
    else if d ≤ e then ofRatio (s != t) (m * powerOfTwo (e - d).toNat) n
    else ofRatio (s != t) m (n * powerOfTwo (d - e).toNat)
  | .nan, _ => .nan
  | _, .nan => .nan
  | .infinite _, .infinite _ => .nan
  | .infinite s, .finite t _ _ => .infinite (s != t)
  | .finite s _ _, .infinite t => .finite (s != t) 0 FloatFormat.double.minExponent

end Double

end Stencil
