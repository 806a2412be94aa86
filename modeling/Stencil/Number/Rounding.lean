/-!
# Rounding to binary floating-point formats

A binary format holds the numbers `m * 2 ^ e` whose significand `m` has at most `precision` bits and
whose exponent lies between two bounds. A quotient of natural numbers is rounded to the nearest of
them; of two equally near ones the one with the even significand is taken. All of it is exact
arithmetic on natural numbers.

* `roundDiv_near` — a rounded quotient is within half a unit of the exact one.
-/

namespace Stencil

/-- `2 ^ n`. -/
def powerOfTwo (n : Nat) : Nat := Nat.pow 2 n

/-- `10 ^ n`. -/
def powerOfTen (n : Nat) : Nat := Nat.pow 10 n

/-- `num / den` rounded to the nearest whole number, a half to the even neighbour. -/
def roundDiv (num den : Nat) : Nat :=
  let q := num / den
  let r := num % den
  if 2 * r < den then q
  else if den < 2 * r then q + 1
  else if q % 2 = 0 then q
  else q + 1

theorem roundDiv_near {num den : Nat} (h : 0 < den) :
    2 * (roundDiv num den * den) ≤ 2 * num + den ∧
      2 * num ≤ 2 * (roundDiv num den * den) + den := by
  have hdiv : den * (num / den) + num % den = num := Nat.div_add_mod num den
  have hlt : num % den < den := Nat.mod_lt _ h
  have hsucc : (num / den + 1) * den = den * (num / den) + den := by
    rw [Nat.add_mul, Nat.mul_comm, Nat.one_mul]
  have hself : num / den * den = den * (num / den) := Nat.mul_comm ..
  simp only [roundDiv]
  split
  · omega
  · split
    · omega
    · split <;> omega

/-- A binary floating-point format. -/
structure FloatFormat where
  /-- How many bits a significand has at most. -/
  precision : Nat
  /-- The exponent of the smallest numbers. -/
  minExponent : Int
  /-- The exponent of the largest numbers. -/
  maxExponent : Int

namespace FloatFormat

/-- The format of 32 bits. -/
def single : FloatFormat := ⟨24, -149, 104⟩

/-- The format of 64 bits. -/
def double : FloatFormat := ⟨53, -1074, 971⟩

/-- The least exponent, not below the format's own, at which `num / den` needs no more bits than the
format has. -/
def exponentFor (f : FloatFormat) (num den : Nat) : Int :=
  -- `num / den` lies between `2 ^ (high - 1)` and `2 ^ (high + 1)`
  let high : Int := (num.log2 : Int) - (den.log2 : Int)
  let below : Bool :=
    if 0 ≤ high then num < den * powerOfTwo high.toNat else num * powerOfTwo (-high).toNat < den
  max f.minExponent (if below then high - f.precision else high + 1 - f.precision)

/-- The significand and the exponent of the number of the format that is nearest to `num / den`;
`none` if that lies beyond the largest one. -/
def round (f : FloatFormat) (num den : Nat) : Option (Nat × Int) :=
  if num = 0 then some (0, f.minExponent)
  else
    let e := f.exponentFor num den
    let m :=
      if 0 ≤ e then roundDiv num (den * powerOfTwo e.toNat)
      else roundDiv (num * powerOfTwo (-e).toNat) den
    -- rounding up may take one bit more than there is
    let (m, e) :=
      if m = powerOfTwo f.precision then (powerOfTwo (f.precision - 1), e + 1) else (m, e)
    if e ≤ f.maxExponent then some (m, e) else none

end FloatFormat

end Stencil
