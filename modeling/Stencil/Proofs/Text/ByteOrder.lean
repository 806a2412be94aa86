import Mathlib.Tactic.SplitIfs
import Stencil.Text.Utf8

/-!
# The order of bytes

Names are kept in the order of their code points, and file systems list them in the order of their
UTF-8 bytes. It is the same order.

* `utf8EncodeChar_append_lt` — of two characters, the one that comes first has the bytes that come
  first, whatever follows them;
* `bytes_lt_bytes_iff` — so texts come in the order of their bytes;
* `map_bytes_lt_iff` — and so do paths, component by component.
-/

namespace Stencil.Text

/-! ### One character -/

theorem ofNat_lt_ofNat {m n : Nat} (hm : m < 256) (hn : n < 256) :
    UInt8.ofNat m < UInt8.ofNat n ↔ m < n := by
  rw [UInt8.lt_iff_toNat_lt, UInt8.toNat_ofNat', UInt8.toNat_ofNat', Nat.mod_eq_of_lt hm,
    Nat.mod_eq_of_lt hn]

theorem ofNat_eq_ofNat {m n : Nat} (hm : m < 256) (hn : n < 256) :
    UInt8.ofNat m = UInt8.ofNat n ↔ m = n := by
  rw [← UInt8.toNat_inj, UInt8.toNat_ofNat', UInt8.toNat_ofNat', Nat.mod_eq_of_lt hm,
    Nat.mod_eq_of_lt hn]

theorem val_toNat_lt (c : Char) : c.val.toNat < 1114112 := by
  rcases c.valid with hvalid | hvalid <;> omega

/-- Numbers are compared by their last digits only where the digits before them agree. -/
theorem lt_cases_div_mod {m n : Nat} (h : m < n) :
    m / 64 < n / 64 ∨ m / 64 = n / 64 ∧ m % 64 < n % 64 := by
  omega

/-- **Characters come in the order of their bytes**, whatever stands behind them. -/
theorem utf8EncodeChar_append_lt {a b : Char} (h : a < b) (s t : List UInt8) :
    String.utf8EncodeChar a ++ s < String.utf8EncodeChar b ++ t := by
  have hlt : a.val.toNat < b.val.toNat := h
  have hb := val_toNat_lt b
  simp only [String.utf8EncodeChar]
  generalize a.val.toNat = m at hlt
  generalize b.val.toNat = n at hlt hb
  -- with more bytes, the first one is higher; with as many, the bytes are digits to the base of 64
  split_ifs <;> simp (disch := omega) only [List.cons_append, List.nil_append,
    List.cons_lt_cons_iff, ofNat_lt_ofNat, ofNat_eq_ofNat] <;> try omega
  -- four digits on both sides
  have htwo : m / 4096 = m / 64 / 64 ∧ n / 4096 = n / 64 / 64 := by omega
  have hthree : m / 262144 = m / 64 / 64 / 64 ∧ n / 262144 = n / 64 / 64 / 64 := by omega
  rw [htwo.1, htwo.2, hthree.1, hthree.2]
  rcases lt_cases_div_mod hlt with hlt | ⟨heq, hlt⟩
  · rcases lt_cases_div_mod hlt with hlt | ⟨heq, hlt⟩
    · rcases lt_cases_div_mod hlt with hlt | ⟨heq, hlt⟩
      · exact .inl (by omega)
      · exact .inr ⟨by omega, .inl (by omega)⟩
    · exact .inr ⟨by omega, .inr ⟨by omega, .inl (by omega)⟩⟩
  · exact .inr ⟨by omega, .inr ⟨by omega, .inr ⟨by omega, .inl (by omega)⟩⟩⟩

/-! ### Texts -/

theorem bytes_cons (c : Char) (t : Text) : bytes (c :: t) = String.utf8EncodeChar c ++ bytes t :=
  List.flatMap_cons

theorem bytes_lt_bytes {s t : Text} (h : s < t) : s.bytes < t.bytes := by
  induction s generalizing t with
  | nil =>
    cases t with
    | nil => exact absurd h (List.lt_irrefl [])
    | cons d t =>
      have hne : bytes (d :: t) ≠ [] := by
        rw [bytes_cons]
        exact List.append_ne_nil_of_left_ne_nil String.utf8EncodeChar_ne_nil _
      obtain ⟨x, rest, hbytes⟩ := List.exists_cons_of_ne_nil hne
      rw [hbytes]
      exact List.nil_lt_cons ..
  | cons c s ih =>
    cases t with
    | nil => exact absurd h (List.not_lt_nil _)
    | cons d t =>
      rw [bytes_cons, bytes_cons]
      -- the first characters differ, and their bytes decide; or they are the same
      rcases List.cons_lt_cons_iff.1 h with hlt | ⟨rfl, hlt⟩
      · exact utf8EncodeChar_append_lt hlt _ _
      · exact List.append_left_lt (ih hlt)

/-- **Texts come in the order of their bytes.** -/
theorem bytes_lt_bytes_iff {s t : Text} : s.bytes < t.bytes ↔ s < t := by
  refine ⟨fun h => ?_, bytes_lt_bytes⟩
  rcases Std.lt_trichotomy s t with hlt | rfl | hlt
  · exact hlt
  · exact absurd h (List.lt_irrefl _)
  · exact absurd h (Std.Asymm.asymm _ _ (bytes_lt_bytes hlt))

theorem bytes_injective {s t : Text} (h : s.bytes = t.bytes) : s = t := by
  rcases Std.lt_trichotomy s t with hlt | rfl | hlt
  · exact absurd (h ▸ bytes_lt_bytes hlt) (List.lt_irrefl _)
  · rfl
  · exact absurd (h ▸ bytes_lt_bytes hlt) (List.lt_irrefl _)

/-- **Paths come in the order of their components**, compared by their bytes. -/
theorem map_bytes_lt_iff {a b : List Text} : a.map bytes < b.map bytes ↔ a < b := by
  induction a generalizing b with
  | nil =>
    cases b with
    | nil => exact iff_of_false (List.lt_irrefl _) (List.lt_irrefl _)
    | cons y b => exact iff_of_true (List.nil_lt_cons ..) (List.nil_lt_cons ..)
  | cons x a ih =>
    cases b with
    | nil => exact iff_of_false (List.not_lt_nil _) (List.not_lt_nil _)
    | cons y b =>
      rw [List.map_cons, List.map_cons, List.cons_lt_cons_iff, List.cons_lt_cons_iff, ih,
        bytes_lt_bytes_iff]
      exact or_congr_right (and_congr_left' ⟨bytes_injective, congrArg bytes⟩)

end Stencil.Text
