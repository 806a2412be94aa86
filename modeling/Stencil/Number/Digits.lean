import Stencil.Text.Basic

/-!
# Decimal digits

Whole numbers in decimal: writing one gives its digits without leading zeros, reading one takes any
run of ASCII digits. Reading undoes writing (`digitsValue_decimal`), and what is written is a run of
digits (`isDigits_decimal`).
-/

namespace Stencil

/-- How many numbers 64 bits can hold: `2 ^ 64`. -/
def wordCount : Nat := 0x10000000000000000

/-- Whether `c` is one of the ten ASCII digits. -/
def isDigit (c : Char) : Bool :=
  '0' ≤ c && c ≤ '9'

/-- The number that a digit stands for. -/
def digitValue (c : Char) : Nat :=
  c.toNat - 48

/-- The digit of `n < 10`. -/
def digitChar (n : Nat) : Char :=
  Char.ofNat (48 + n)

/-- `n` in decimal, without leading zeros. -/
def decimal (n : Nat) : Text :=
  if _h : n < 10 then [digitChar n] else decimal (n / 10) ++ [digitChar (n % 10)]
termination_by n
decreasing_by omega

/-- `n` in decimal, with a minus sign if it is negative. -/
def signedDecimal (n : Int) : Text :=
  if n < 0 then '-' :: decimal n.natAbs else decimal n.natAbs

/-- Whether `t` is a run of digits, with at least one. -/
def isDigits (t : Text) : Bool :=
  !t.isEmpty && t.all isDigit

/-- The number that a run of digits stands for. -/
def digitsValue (t : Text) : Nat :=
  t.foldl (fun n c => 10 * n + digitValue c) 0

theorem digitValue_digitChar {n : Nat} (h : n < 10) : digitValue (digitChar n) = n := by
  have : ∀ k < 10, digitValue (digitChar k) = k := by decide
  exact this n h

theorem isDigit_digitChar {n : Nat} (h : n < 10) : isDigit (digitChar n) = true := by
  have : ∀ k < 10, isDigit (digitChar k) = true := by decide
  exact this n h

theorem digitsValue_decimal (n : Nat) : digitsValue (decimal n) = n := by
  induction n using Nat.strongRecOn with
  | _ n ih =>
    rw [decimal]
    split
    · next h => simp [digitsValue, digitValue_digitChar h]
    · next h =>
      -- the last digit, behind the digits of a tenth of the number
      have hlast : digitValue (digitChar (n % 10)) = n % 10 :=
        digitValue_digitChar (Nat.mod_lt n (by omega))
      have hinit : digitsValue (decimal (n / 10)) = n / 10 := ih _ (by omega)
      simp only [digitsValue] at hinit
      simp only [digitsValue, List.foldl_append, hinit, List.foldl_cons, List.foldl_nil, hlast]
      omega

theorem isDigits_decimal (n : Nat) : isDigits (decimal n) = true := by
  induction n using Nat.strongRecOn with
  | _ n ih =>
    rw [decimal]
    split
    · next h => simp [isDigits, isDigit_digitChar h]
    · next h =>
      have hlast : isDigit (digitChar (n % 10)) = true :=
        isDigit_digitChar (Nat.mod_lt n (by omega))
      have hinit : isDigits (decimal (n / 10)) = true := ih _ (by omega)
      simp only [isDigits, Bool.and_eq_true] at hinit
      simp [isDigits, List.all_append, hinit.2, hlast]

/-- The number that `t` writes in decimal, if it is a run of digits, perhaps after one plus sign. -/
def natural? (t : Text) : Option Nat :=
  let digits := match t with
    | '+' :: rest => rest
    | _ => t
  if isDigits digits then some (digitsValue digits) else none

/-- The number that `t` writes in decimal, if it is a run of digits, perhaps after one sign. -/
def integer? (t : Text) : Option Int :=
  match t with
  | '-' :: digits => if isDigits digits then some (-(digitsValue digits : Int)) else none
  | _ => (natural? t).map fun n => (n : Int)

end Stencil
