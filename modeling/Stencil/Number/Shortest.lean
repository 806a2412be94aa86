import Stencil.Number.Digits
import Stencil.Number.Double

/-!
# The shortest decimal that reads back

A double is written with the fewest decimal digits that no other double is nearer to, and of those
with the nearest to it. The numbers that round to `m * 2 ^ e` form an interval around it, whose ends
belong to it when `m` is even. On the decimal grid of the multiples of `10 ^ k` only the two
neighbours of the number itself can be the nearest point of the interval, so the search goes from
coarse grids to fine ones and stops at the first neighbour that lies inside.
-/

namespace Stencil

/-- The numbers that a double stands for, as multiples of a common unit. -/
structure RoundingInterval where
  /-- The number itself. -/
  value : Nat
  /-- The lower end. -/
  low : Nat
  /-- The upper end. -/
  high : Nat
  /-- How many units make one. -/
  units : Nat
  /-- Whether the ends belong to the interval. -/
  closed : Bool

namespace RoundingInterval

/-- The interval of `m * 2 ^ e`. It reaches half way to the next significand on either side, but
only a quarter downwards from the least significand with all bits, below which numbers lie closer.
-/
def ofFinite (m : Nat) (e : Int) : RoundingInterval :=
  let scale := powerOfTwo (e - 2).toNat
  let below := if m = powerOfTwo (FloatFormat.double.precision - 1) then 1 else 2
  { value := 4 * m * scale
    low := (4 * m - below) * scale
    high := (4 * m + 2) * scale
    units := powerOfTwo (2 - e).toNat
    closed := m % 2 = 0 }

/-- Whether `n / d` units lie in the interval. -/
def contains (i : RoundingInterval) (n d : Nat) : Bool :=
  if i.closed then i.low * d ≤ n && n ≤ i.high * d else i.low * d < n && n < i.high * d

/-- The point of the grid of the multiples of `10 ^ k` that is nearest to the value, if it lies in
the interval; a tie goes to the larger one. -/
def onGrid? (i : RoundingInterval) (k : Int) : Option Nat :=
  -- in units, a step of the grid is `step / scale`
  let step := i.units * powerOfTen k.toNat
  let scale := powerOfTen (-k).toNat
  let down := i.value * scale / step
  let up := down + 1
  let nearUp := up * step - i.value * scale ≤ i.value * scale - down * step
  match i.contains (down * step) scale, i.contains (up * step) scale with
  | true, true => some (if nearUp then up else down)
  | true, false => some down
  | false, true => some up
  | false, false => none

/-- The first grid, of `fuel` ever finer ones from `10 ^ k` on, that has a point in the interval. -/
def search (i : RoundingInterval) : Nat → Int → Nat × Int
  | 0, k => (i.value * powerOfTen (-k).toNat / i.units, k)
  | fuel + 1, k =>
    match i.onGrid? k with
    | some n => (n, k)
    | none => search i fuel (k - 1)

end RoundingInterval

/-- The digits and the power of ten of the shortest decimal that reads back as `m * 2 ^ e`. The
search starts above the leading digit; seventeen digits are always enough. -/
def shortest (m : Nat) (e : Int) : Nat × Int :=
  (RoundingInterval.ofFinite m e).search 24 ((e + m.log2 + 3) * 30103 / 100000 + 2)

/-- `n * 10 ^ k` written out in full, without an exponent. -/
def positional (n : Nat) (k : Int) : Text :=
  let digits := decimal n
  if 0 ≤ k then digits ++ List.replicate k.toNat '0'
  else
    let places := (-k).toNat
    if places < digits.length then
      digits.take (digits.length - places) ++ '.' :: digits.drop (digits.length - places)
    else '0' :: '.' :: List.replicate (places - digits.length) '0' ++ digits

/-- A double as text: its shortest digits, written out in full. -/
def Double.text : Double → Text
  | .nan => ['N', 'a', 'N']
  | .infinite negative => (if negative then ['-'] else []) ++ ['i', 'n', 'f']
  | .finite negative m e =>
    (if negative then ['-'] else []) ++
      if m = 0 then ['0'] else let (n, k) := shortest m e; positional n k

end Stencil
