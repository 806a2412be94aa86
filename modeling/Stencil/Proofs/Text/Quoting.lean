import Mathlib.Data.List.Basic
import Mathlib.Tactic.SplitIfs
import Stencil.Number.Digits
import Stencil.Text.Printable

/-!
# Reading what is quoted, and what is counted

What is quoted can be told from what follows it: no character of a text can close the quotes that
the text stands in. This does not depend on which characters have a picture, so the set of those
that have none is arbitrary here (`quotedHiding`).

* `append_inj_of_boundary` — a run of characters of one kind is found again, whatever follows, if
  that does not begin with another of the kind;
* `quotedHiding_append_inj` — so a quoted text is found again, whatever follows;
* `signedDecimal_append_inj` — and so is a number in decimal, if no digit follows.
-/

namespace Stencil

/-! ### Runs -/

/-- Whether a text does not begin with a character of the kind `p`. -/
def Stops (p : Char → Bool) (t : Text) : Prop :=
  ∀ c ∈ t.head?, p c = false

variable {p : Char → Bool}

theorem stops_nil : Stops p [] := fun _ hc => nomatch hc

theorem stops_cons {c : Char} {t : Text} (h : p c = false) : Stops p (c :: t) := by
  intro d hd
  obtain rfl := Option.some.inj hd
  exact h

/-- **A run ends where its kind ends.** -/
theorem append_inj_of_boundary {a b s t : Text} (ha : ∀ c ∈ a, p c = true)
    (hb : ∀ c ∈ b, p c = true) (hs : Stops p s) (ht : Stops p t) (h : a ++ s = b ++ t) :
    a = b ∧ s = t := by
  induction a generalizing b with
  | nil =>
    cases b with
    | nil => exact ⟨rfl, h⟩
    | cons d b =>
      -- the other run has begun where this one has ended
      have hhead : p d = false := hs d (by rw [← List.nil_append s, h]; rfl)
      rw [hb d List.mem_cons_self] at hhead
      cases hhead
  | cons c a ih =>
    cases b with
    | nil =>
      have hhead : p c = false := ht c (by rw [← List.nil_append t, ← h]; rfl)
      rw [ha c List.mem_cons_self] at hhead
      cases hhead
    | cons d b =>
      obtain ⟨rfl, hrest⟩ := List.cons.inj h
      obtain ⟨rfl, hst⟩ := ih (fun x hx => ha x (List.mem_cons_of_mem _ hx))
        (fun x hx => hb x (List.mem_cons_of_mem _ hx)) hrest
      exact ⟨rfl, hst⟩

/-! ### Numbers -/

theorem decimal_injective {m n : Nat} (h : decimal m = decimal n) : m = n := by
  rw [← digitsValue_decimal m, h, digitsValue_decimal]

theorem isDigit_of_mem_decimal {n : Nat} {c : Char} (h : c ∈ decimal n) : isDigit c = true := by
  have hdigits := isDigits_decimal n
  rw [isDigits, Bool.and_eq_true, List.all_eq_true] at hdigits
  exact hdigits.2 c h

theorem decimal_ne_nil (n : Nat) : decimal n ≠ [] := by
  intro h
  have hdigits := isDigits_decimal n
  rw [h] at hdigits
  cases hdigits

theorem decimal_append_inj {m n : Nat} {s t : Text} (hs : Stops isDigit s) (ht : Stops isDigit t)
    (h : decimal m ++ s = decimal n ++ t) : m = n ∧ s = t := by
  obtain ⟨hdecimal, hrest⟩ := append_inj_of_boundary (fun _ => isDigit_of_mem_decimal)
    (fun _ => isDigit_of_mem_decimal) hs ht h
  exact ⟨decimal_injective hdecimal, hrest⟩

/-- A minus sign is no digit. -/
theorem minus_append_ne_decimal_append (m n : Nat) (s t : Text) :
    '-' :: decimal m ++ s ≠ decimal n ++ t := by
  intro h
  obtain ⟨c, rest, hdecimal⟩ := List.exists_cons_of_ne_nil (decimal_ne_nil n)
  have hc : isDigit c = true := isDigit_of_mem_decimal (hdecimal ▸ List.mem_cons_self)
  rw [hdecimal] at h
  obtain ⟨rfl, -⟩ := List.cons.inj h
  cases hc

/-- **A number is found again**, if no digit follows it. -/
theorem signedDecimal_append_inj {m n : Int} {s t : Text} (hs : Stops isDigit s)
    (ht : Stops isDigit t) (h : signedDecimal m ++ s = signedDecimal n ++ t) : m = n ∧ s = t := by
  unfold signedDecimal at h
  -- only negative numbers begin with a sign, so the first character tells the two apart
  split at h
  · next hm =>
    split at h
    · next hn =>
      obtain ⟨habs, hrest⟩ := decimal_append_inj hs ht (List.cons.inj h).2
      exact ⟨by omega, hrest⟩
    · exact absurd h (minus_append_ne_decimal_append _ _ s t)
  · next hm =>
    split at h
    · exact absurd h.symm (minus_append_ne_decimal_append _ _ t s)
    · next hn =>
      obtain ⟨habs, hrest⟩ := decimal_append_inj hs ht h
      exact ⟨by omega, hrest⟩

/-! ### Code points -/

/-- Whether `c` is a lower-case hexadecimal digit. -/
def isHexDigit (c : Char) : Bool :=
  isDigit c || ('a' ≤ c && c ≤ 'f')

theorem isHexDigit_hexDigit {n : Nat} (h : n < 16) : isHexDigit (hexDigit n) = true := by
  have : ∀ k < 16, isHexDigit (hexDigit k) = true := by decide
  exact this n h

theorem hexDigit_injective {m n : Nat} (hm : m < 16) (hn : n < 16) (h : hexDigit m = hexDigit n) :
    m = n := by
  have : ∀ j < 16, ∀ k < 16, hexDigit j = hexDigit k → j = k := by decide
  exact this m hm n hn h

theorem hexDigits_of_lt {n : Nat} (h : n < 16) : hexDigits n = [hexDigit n] := by
  rw [hexDigits, dif_pos h]

theorem hexDigits_of_le {n : Nat} (h : 16 ≤ n) :
    hexDigits n = hexDigits (n / 16) ++ [hexDigit (n % 16)] := by
  rw [hexDigits, dif_neg (by omega)]

theorem hexDigits_ne_nil (n : Nat) : hexDigits n ≠ [] := by
  rcases Nat.lt_or_ge n 16 with hn | hn
  · rw [hexDigits_of_lt hn]
    exact List.cons_ne_nil _ _
  · rw [hexDigits_of_le hn]
    exact List.append_ne_nil_of_right_ne_nil _ (List.cons_ne_nil _ _)

theorem isHexDigit_of_mem_hexDigits {n : Nat} {c : Char} (h : c ∈ hexDigits n) :
    isHexDigit c = true := by
  induction n using hexDigits.induct with
  | case1 n hn =>
    rw [hexDigits_of_lt hn, List.mem_singleton] at h
    exact h ▸ isHexDigit_hexDigit hn
  | case2 n hn ih =>
    rw [hexDigits_of_le (by omega), List.mem_append, List.mem_singleton] at h
    rcases h with h | rfl
    · exact ih h
    · exact isHexDigit_hexDigit (Nat.mod_lt n (by decide))

theorem hexDigits_injective {m n : Nat} (h : hexDigits m = hexDigits n) : m = n := by
  induction m using hexDigits.induct generalizing n with
  | case1 m hm =>
    rcases Nat.lt_or_ge n 16 with hn | hn
    · rw [hexDigits_of_lt hm, hexDigits_of_lt hn] at h
      exact hexDigit_injective hm hn (List.cons.inj h).1
    · -- two digits at least are no single one
      rw [hexDigits_of_lt hm, hexDigits_of_le hn, ← List.nil_append [hexDigit m]] at h
      exact absurd (List.append_inj_left' h rfl).symm (hexDigits_ne_nil _)
  | case2 m hm ih =>
    rw [hexDigits_of_le (by omega)] at h
    rcases Nat.lt_or_ge n 16 with hn | hn
    · rw [hexDigits_of_lt hn, ← List.nil_append [hexDigit n]] at h
      exact absurd (List.append_inj_left' h rfl) (hexDigits_ne_nil _)
    · rw [hexDigits_of_le hn] at h
      have hinit : m / 16 = n / 16 := ih (List.append_inj_left' h rfl)
      have hlast : m % 16 = n % 16 :=
        hexDigit_injective (Nat.mod_lt m (by decide)) (Nat.mod_lt n (by decide))
          (List.cons.inj (List.append_inj_right' h rfl)).1
      omega

/-- **A code point is found again** between curly brackets. -/
theorem hexDigits_append_inj {m n : Nat} {s t : Text}
    (h : hexDigits m ++ '\x7d' :: s = hexDigits n ++ '\x7d' :: t) : m = n ∧ s = t := by
  -- the curly bracket that follows is no digit
  have hstops (rest : Text) : Stops isHexDigit ('\x7d' :: rest) := stops_cons (by decide)
  obtain ⟨hdigits, hrest⟩ := append_inj_of_boundary (fun _ => isHexDigit_of_mem_hexDigits)
    (fun _ => isHexDigit_of_mem_hexDigits) (hstops s) (hstops t) h
  exact ⟨hexDigits_injective hdigits, (List.cons.inj hrest).2⟩

namespace Text

/-! ### Characters -/

/-- What stands behind the backslash for a character that has an escape of its own. -/
def escape? (c : Char) : Option Char :=
  if c = '\x00' then some '0'
  else if c = '\t' then some 't'
  else if c = '\r' then some 'r'
  else if c = '\n' then some 'n'
  else if c = '\\' then some '\\'
  else if c = '"' then some '"'
  else none

/-- How one character is written inside quotes, if the characters in `hidden` have no picture. -/
def quotedCharHiding (hidden : Char → Bool) (c : Char) : Text :=
  match escape? c with
  | some e => ['\\', e]
  | none => if hidden c then '\\' :: 'u' :: '\x7b' :: hexDigits c.toNat ++ ['\x7d'] else [c]

/-- The quoted form of a text, if the characters in `hidden` have no picture. -/
def quotedHiding (hidden : Char → Bool) (t : Text) : Text :=
  '"' :: t.flatMap (quotedCharHiding hidden) ++ ['"']

/-- The characters that a quoted text cannot show. -/
def isHidden (c : Char) : Bool :=
  isExtending c || isUnprintable c

theorem quotedHiding_isHidden (t : Text) : t.quotedHiding isHidden = t.quoted := by
  have hchar : quotedCharHiding isHidden = quotedChar := by
    funext c
    unfold quotedCharHiding quotedChar escape?
    split_ifs <;> simp_all [isHidden]
  rw [quotedHiding, hchar, quoted]

variable {hidden : Char → Bool}

/-- The character that is meant by what stands behind the backslash. -/
def unescaped (e : Char) : Char :=
  if e = '0' then '\x00' else if e = 't' then '\t' else if e = 'r' then '\r'
  else if e = 'n' then '\n' else e

theorem unescaped_of_escape? {c e : Char} (h : escape? c = some e) : unescaped e = c := by
  unfold escape? at h
  split_ifs at h with hc hc hc hc hc hc <;> obtain rfl := Option.some.inj h <;> rw [hc] <;> rfl

theorem escape?_injective {c d e : Char} (hc : escape? c = some e) (hd : escape? d = some e) :
    c = d := by
  rw [← unescaped_of_escape? hc, unescaped_of_escape? hd]

theorem escape?_ne_u (c : Char) : escape? c ≠ some 'u' := by
  unfold escape?
  split_ifs <;> simp

theorem ne_of_escape?_none {c : Char} (h : escape? c = none) : c ≠ '\\' ∧ c ≠ '"' := by
  constructor <;> rintro rfl <;> cases h

/-- A character has an escape of its own, or is written by its code point, or stands for itself. -/
theorem quotedCharHiding_cases (hidden : Char → Bool) (c : Char) :
    (∃ e, escape? c = some e ∧ quotedCharHiding hidden c = ['\\', e]) ∨
      quotedCharHiding hidden c = '\\' :: 'u' :: '\x7b' :: hexDigits c.toNat ++ ['\x7d'] ∨
      (c ≠ '\\' ∧ c ≠ '"') ∧ quotedCharHiding hidden c = [c] := by
  unfold quotedCharHiding
  cases he : escape? c with
  | some e => exact .inl ⟨e, rfl, rfl⟩
  | none =>
    cases hidden c with
    | true => exact .inr (.inl rfl)
    | false => exact .inr (.inr ⟨ne_of_escape?_none he, rfl⟩)

/-- **A character is found again** in what is quoted, whatever follows it. -/
theorem quotedCharHiding_append_inj {c d : Char} {s t : Text}
    (h : quotedCharHiding hidden c ++ s = quotedCharHiding hidden d ++ t) : c = d ∧ s = t := by
  -- each character is escaped by a letter, or by its number, or stands for itself; the first
  -- characters tell which
  rcases quotedCharHiding_cases hidden c with ⟨e, he, hc⟩ | hc | ⟨⟨hplain, -⟩, hc⟩
  · rcases quotedCharHiding_cases hidden d with ⟨e', he', hd⟩ | hd | ⟨⟨hplain', -⟩, hd⟩
    · rw [hc, hd] at h
      simp only [List.cons_append, List.nil_append, List.cons.injEq, true_and] at h
      obtain ⟨rfl, hrest⟩ := h
      exact ⟨escape?_injective he he', hrest⟩
    · rw [hc, hd] at h
      simp only [List.cons_append, List.nil_append, List.cons.injEq, true_and] at h
      exact absurd (h.1 ▸ he) (escape?_ne_u c)
    · rw [hc, hd] at h
      exact absurd (List.cons.inj h).1.symm hplain'
  · rcases quotedCharHiding_cases hidden d with ⟨e', he', hd⟩ | hd | ⟨⟨hplain', -⟩, hd⟩
    · rw [hc, hd] at h
      simp only [List.cons_append, List.nil_append, List.cons.injEq, true_and] at h
      exact absurd (h.1 ▸ he') (escape?_ne_u d)
    · rw [hc, hd] at h
      simp only [List.cons_append, List.append_assoc, List.nil_append, List.cons.injEq,
        true_and] at h
      obtain ⟨hpoint, hrest⟩ := hexDigits_append_inj h
      exact ⟨Char.toNat_inj.1 hpoint, hrest⟩
    · rw [hc, hd] at h
      exact absurd (List.cons.inj h).1.symm hplain'
  · rcases quotedCharHiding_cases hidden d with ⟨e', he', hd⟩ | hd | ⟨-, hd⟩
    · rw [hc, hd] at h
      exact absurd (List.cons.inj h).1 hplain
    · rw [hc, hd] at h
      exact absurd (List.cons.inj h).1 hplain
    · rw [hc, hd] at h
      exact List.cons.inj h

/-- No character is written with a quote first. -/
theorem quotedCharHiding_append_ne_quote (c : Char) (s t : Text) :
    quotedCharHiding hidden c ++ s ≠ '"' :: t := by
  intro h
  rcases quotedCharHiding_cases hidden c with ⟨e, -, hc⟩ | hc | ⟨⟨-, hplain⟩, hc⟩
  · rw [hc] at h
    exact absurd (List.cons.inj h).1 (by decide)
  · rw [hc] at h
    exact absurd (List.cons.inj h).1 (by decide)
  · rw [hc] at h
    exact absurd (List.cons.inj h).1 hplain

/-! ### Texts -/

theorem flatMap_quoted_append_inj {a b s t : Text}
    (h : a.flatMap (quotedCharHiding hidden) ++ '"' :: s
      = b.flatMap (quotedCharHiding hidden) ++ '"' :: t) : a = b ∧ s = t := by
  induction a generalizing b with
  | nil =>
    cases b with
    | nil => exact ⟨rfl, (List.cons.inj h).2⟩
    | cons d b =>
      rw [List.flatMap_cons, List.append_assoc] at h
      -- no character begins with the quote at the end
      exact absurd h.symm (quotedCharHiding_append_ne_quote _ _ _)
  | cons c a ih =>
    rw [List.flatMap_cons, List.append_assoc] at h
    cases b with
    | nil => exact absurd h (quotedCharHiding_append_ne_quote _ _ _)
    | cons d b =>
      rw [List.flatMap_cons, List.append_assoc] at h
      obtain ⟨rfl, hrest⟩ := quotedCharHiding_append_inj h
      obtain ⟨rfl, hst⟩ := ih hrest
      exact ⟨rfl, hst⟩

/-- **A quoted text is found again**, whatever it holds and whatever follows it. -/
theorem quotedHiding_append_inj {a b s t : Text}
    (h : a.quotedHiding hidden ++ s = b.quotedHiding hidden ++ t) : a = b ∧ s = t := by
  simp only [quotedHiding, List.cons_append, List.append_assoc, List.nil_append] at h
  exact flatMap_quoted_append_inj (List.cons.inj h).2

end Text

end Stencil
