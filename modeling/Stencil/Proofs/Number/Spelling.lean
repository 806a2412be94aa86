import Mathlib.Data.List.Induction
import Stencil.Number.Digits

/-!
# Spellings of a natural number

A natural number can be spelled in more than one way: zeros may stand before its decimal digits, and
a plus sign before all of them.

* `natural?_eq_some_iff` — reading accepts just the spellings of a number, and gives that number.
-/

namespace Stencil

/-- Whether `t` **spells** `n`: its decimal digits, perhaps after zeros, perhaps after one plus
sign. -/
def SpellsNumber (t : Text) (n : Nat) : Prop :=
  ∃ sign zeros, (sign = [] ∨ sign = ['+']) ∧ t = sign ++ (List.replicate zeros '0' ++ decimal n)

theorem digitChar_digitValue {c : Char} (h : isDigit c = true) : digitChar (digitValue c) = c := by
  have hlow : 48 ≤ c.toNat := by
    simp only [isDigit, Bool.and_eq_true, decide_eq_true_eq] at h
    exact h.1
  rw [digitChar, digitValue, Nat.add_sub_cancel' hlow, Char.ofNat_toNat]

theorem digitValue_lt {c : Char} (h : isDigit c = true) : digitValue c < 10 := by
  simp only [isDigit, Bool.and_eq_true, decide_eq_true_eq] at h
  have hhigh : c.toNat ≤ 57 := h.2
  rw [digitValue]
  omega

theorem digitsValue_concat (t : Text) (c : Char) :
    digitsValue (t ++ [c]) = 10 * digitsValue t + digitValue c := by
  rw [digitsValue, List.foldl_append]
  rfl

theorem decimal_of_lt {n : Nat} (h : n < 10) : decimal n = [digitChar n] := by
  rw [decimal, dif_pos h]

/-- One more digit is written behind a number that is not zero. -/
theorem decimal_concat {n d : Nat} (hn : 0 < n) (hd : d < 10) :
    decimal (10 * n + d) = decimal n ++ [digitChar d] := by
  have hdiv : (10 * n + d) / 10 = n := by omega
  have hmod : (10 * n + d) % 10 = d := by omega
  rw [decimal, dif_neg (by omega), hdiv, hmod]

/-- **A run of digits** is a run of zeros, and then the number that it stands for. -/
theorem exists_replicate_append_decimal {t : Text} (h : isDigits t = true) :
    ∃ zeros, t = List.replicate zeros '0' ++ decimal (digitsValue t) := by
  induction t using List.reverseRecOn with
  | nil => cases h
  | append_singleton t c ih =>
    simp only [isDigits, List.all_append, Bool.and_eq_true, List.all_cons, List.all_nil] at h
    obtain ⟨-, ht, hc, -⟩ := h
    have hlt := digitValue_lt hc
    rw [digitsValue_concat]
    by_cases hnil : t = []
    · refine ⟨0, ?_⟩
      have hempty : digitsValue [] = 0 := rfl
      rw [hnil, hempty, Nat.mul_zero, Nat.zero_add, decimal_of_lt hlt, digitChar_digitValue hc]
      rfl
    · have hdigits : isDigits t = true := by simp [isDigits, hnil, ht]
      obtain ⟨zeros, hzeros⟩ := ih hdigits
      rcases Nat.eq_zero_or_pos (digitsValue t) with hzero | hpos
      · -- only zeros so far, and the last of them is no longer a number of its own
        refine ⟨zeros + 1, ?_⟩
        rw [hzero, decimal_of_lt (by omega)] at hzeros
        rw [hzero, Nat.mul_zero, Nat.zero_add, decimal_of_lt hlt, digitChar_digitValue hc,
          List.replicate_succ', hzeros]
        rfl
      · refine ⟨zeros, ?_⟩
        rw [decimal_concat hpos hlt, digitChar_digitValue hc, ← List.append_assoc, ← hzeros]

theorem digitsValue_replicate_append (zeros : Nat) (t : Text) :
    digitsValue (List.replicate zeros '0' ++ t) = digitsValue t := by
  induction zeros with
  | zero => rfl
  | succ zeros ih =>
    rw [← ih, List.replicate_succ]
    rfl

theorem isDigits_replicate_append {t : Text} (zeros : Nat) (h : isDigits t = true) :
    isDigits (List.replicate zeros '0' ++ t) = true := by
  induction zeros with
  | zero => exact h
  | succ zeros ih =>
    simp only [isDigits, Bool.and_eq_true] at ih
    rw [List.replicate_succ, List.cons_append, isDigits, List.all_cons, ih.2]
    rfl

theorem natural?_plus (t : Text) :
    natural? ('+' :: t) = if isDigits t then some (digitsValue t) else none :=
  rfl

theorem natural?_of_ne_plus {t : Text} (h : ∀ rest, t ≠ '+' :: rest) :
    natural? t = if isDigits t then some (digitsValue t) else none := by
  unfold natural?
  split
  · next rest => exact absurd rfl (h rest)
  · rfl

/-- A run of digits begins with no plus sign. -/
theorem ne_plus_of_isDigits {t : Text} (h : isDigits t = true) (rest : Text) : t ≠ '+' :: rest := by
  rintro rfl
  simp only [isDigits, List.all_cons, Bool.and_eq_true] at h
  exact absurd h.2.1 (by decide)

/-- What is read as a number is a run of digits, perhaps after a plus sign. -/
theorem exists_digits_of_natural? {t : Text} {n : Nat} (h : natural? t = some n) :
    ∃ sign digits, (sign = [] ∨ sign = ['+']) ∧ t = sign ++ digits ∧ isDigits digits = true ∧
      digitsValue digits = n := by
  by_cases hplus : ∃ rest, t = '+' :: rest
  · obtain ⟨digits, rfl⟩ := hplus
    rw [natural?_plus] at h
    split at h
    · next hdigits => exact ⟨['+'], digits, .inr rfl, rfl, hdigits, Option.some.inj h⟩
    · cases h
  · rw [natural?_of_ne_plus fun rest heq => hplus ⟨rest, heq⟩] at h
    split at h
    · next hdigits => exact ⟨[], t, .inl rfl, rfl, hdigits, Option.some.inj h⟩
    · cases h

/-- **Reading a natural number** accepts just its spellings. -/
theorem natural?_eq_some_iff {t : Text} {n : Nat} : natural? t = some n ↔ SpellsNumber t n := by
  constructor
  · intro h
    obtain ⟨sign, digits, hsign, rfl, hdigits, rfl⟩ := exists_digits_of_natural? h
    -- digits are those of their number, behind zeros
    obtain ⟨zeros, hzeros⟩ := exists_replicate_append_decimal hdigits
    exact ⟨sign, zeros, hsign, congrArg _ hzeros⟩
  · rintro ⟨sign, zeros, hsign, rfl⟩
    have hdigits := isDigits_replicate_append zeros (isDigits_decimal n)
    have hvalue : digitsValue (List.replicate zeros '0' ++ decimal n) = n := by
      rw [digitsValue_replicate_append, digitsValue_decimal]
    rcases hsign with rfl | rfl
    · rw [List.nil_append, natural?_of_ne_plus (ne_plus_of_isDigits hdigits), if_pos hdigits,
        hvalue]
    · rw [List.singleton_append, natural?_plus, if_pos hdigits, hvalue]

end Stencil
