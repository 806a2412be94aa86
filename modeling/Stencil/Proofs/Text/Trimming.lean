import Mathlib.Data.List.TakeWhile
import Stencil.Text.Basic

/-!
# Trimming

What is trimmed away satisfies some property of characters, and what is left does not at its ends.
So trimming finds what stands between two texts to be trimmed (`Text.trim_append`), and on the right
what stands before one (`Text.trimRight_append`).
-/

namespace Stencil

namespace Text

variable {p : Char → Bool}

/-! ### On the right -/

/-- What is trimmed away are characters that satisfy `p`, and what is left ends in no other. -/
theorem exists_eq_trimRight_append (p : Char → Bool) (t : Text) :
    ∃ trimmed, t = trimRight p t ++ trimmed ∧ (∀ c ∈ trimmed, p c = true) ∧
      ∀ c, (trimRight p t).getLast? = some c → p c = false := by
  refine ⟨(t.reverse.takeWhile p).reverse, ?_, fun c hc => ?_, fun c hc => ?_⟩
  · rw [trimRight, ← List.reverse_append, List.takeWhile_append_dropWhile, List.reverse_reverse]
  · exact List.mem_takeWhile_imp (List.mem_reverse.1 hc)
  · have hnot := List.head?_dropWhile_not p t.reverse
    rw [trimRight, List.getLast?_reverse] at hc
    rw [hc] at hnot
    simpa using hnot

theorem dropWhile_append_of_trimmed {a m : Text} (ha : ∀ c ∈ a, p c = true)
    (hm : ∀ c, m.head? = some c → p c = false) : (a ++ m).dropWhile p = m := by
  rw [List.dropWhile_append_of_pos ha]
  cases m with
  | nil => rfl
  | cons c m => rw [List.dropWhile_cons, if_neg (by rw [hm c rfl]; exact Bool.false_ne_true)]

/-- What ends in no character to be trimmed stops the trimming. -/
theorem trimRight_append {a b : Text} (ha : ∀ c, a.getLast? = some c → p c = false)
    (hb : ∀ c ∈ b, p c = true) : trimRight p (a ++ b) = a := by
  rw [trimRight, List.reverse_append,
    dropWhile_append_of_trimmed (fun c hc => hb c (List.mem_reverse.1 hc))
      fun c hc => ha c (by rwa [List.head?_reverse] at hc), List.reverse_reverse]

/-! ### At both ends -/

/-- Whether a text **neither begins nor ends** in a character that satisfies `p`. -/
def Trimmed (p : Char → Bool) (t : Text) : Prop :=
  (∀ c, t.head? = some c → p c = false) ∧ ∀ c, t.getLast? = some c → p c = false

theorem trimmed_of_forall {t : Text} (h : ∀ c ∈ t, p c = false) : Trimmed p t :=
  ⟨fun c hc => h c (List.mem_of_mem_head? hc), fun c hc => h c (List.mem_of_getLast? hc)⟩

/-- **Trimming finds** what stands between two texts to be trimmed. -/
theorem trim_append {a m b : Text} (ha : ∀ c ∈ a, p c = true) (hb : ∀ c ∈ b, p c = true)
    (hm : Trimmed p m) : trim p (a ++ m ++ b) = m := by
  by_cases hnil : m = []
  · -- nothing stands between them, and all goes with the first one
    subst hnil
    have hall : ∀ c ∈ a ++ [] ++ b, p c = true := by
      rw [List.append_nil]
      exact List.forall_mem_append.2 ⟨ha, hb⟩
    rw [trim, List.dropWhile_eq_nil_iff.2 hall]
    rfl
  · obtain ⟨c, rest, rfl⟩ := List.exists_cons_of_ne_nil hnil
    have hhead : ∀ d, (c :: rest ++ b).head? = some d → p d = false := hm.1
    rw [trim, List.append_assoc, dropWhile_append_of_trimmed ha hhead]
    exact trimRight_append hm.2 hb

/-- What is trimmed away satisfies `p`, and what is left does not at its ends. -/
theorem exists_eq_append_trim (p : Char → Bool) (t : Text) :
    ∃ a b, (∀ c ∈ a, p c = true) ∧ (∀ c ∈ b, p c = true) ∧ t = a ++ trim p t ++ b ∧
      Trimmed p (trim p t) := by
  have hdrop (u : Text) : ∀ c, (u.dropWhile p).head? = some c → p c = false := by
    intro c hc
    have hnot := List.head?_dropWhile_not p u
    rw [hc] at hnot
    simpa using hnot
  obtain ⟨a, ha, hat⟩ : ∃ a : Text, (∀ c ∈ a, p c = true) ∧ t = a ++ t.dropWhile p :=
    ⟨t.takeWhile p, fun c hc => List.mem_takeWhile_imp hc, List.takeWhile_append_dropWhile.symm⟩
  obtain ⟨b, hbt, hb, hlast⟩ := exists_eq_trimRight_append p (t.dropWhile p)
  have hbt : t.dropWhile p = trim p t ++ b := hbt
  refine ⟨a, b, ha, hb, by rw [List.append_assoc, ← hbt]; exact hat, fun c hc => ?_, hlast⟩
  -- what is left begins as it did before it was trimmed on the right
  refine hdrop t c ?_
  rw [hbt, List.head?_append, hc]
  rfl

/-- An end of a trimmed text needs trimming on the left only. -/
theorem Trimmed.exists_eq_append_trim {t u : Text} (h : Trimmed p (u ++ t)) :
    ∃ a, (∀ d ∈ a, p d = true) ∧ t = a ++ trim p t := by
  obtain ⟨a, b, ha, hb, ht, -⟩ := Text.exists_eq_append_trim p t
  -- the end of the whole text is not to be trimmed, so nothing is
  have hnil : b = [] := by
    by_contra hne
    have hlast : (u ++ t).getLast? = some (b.getLast hne) := by
      rw [ht, ← List.append_assoc, List.getLast?_append, List.getLast?_eq_some_getLast hne]
      rfl
    have htrue := hb _ (List.getLast_mem hne)
    rw [h.2 _ hlast] at htrue
    cases htrue
  rw [hnil, List.append_nil] at ht
  exact ⟨a, ha, ht⟩

end Text

end Stencil
