import Stencil.Json.Basic

/-!
# Tokens of a JSON text

A JSON text is a sequence of tokens with blanks between them. A token is a mark, a word, a number or
a string, and each is as long as it can be.

* `JsonToken.length_lt_of_next?` — reading a token takes something off the text.
-/

namespace Stencil

/-- A **token** of a JSON text. -/
inductive JsonToken where
  | openArray
  | closeArray
  | openObject
  | closeObject
  | comma
  | colon
  | null
  | bool (b : Bool)
  | number (n : JsonNumeral)
  | string (s : JsonString)
  deriving DecidableEq, Repr

namespace JsonToken

/-- The characters between tokens that do not count. -/
def isBlank (c : Char) : Bool :=
  c = ' ' || c = '\t' || c = '\n' || c = '\r'

/-! ### Strings -/

/-- The number that a hexadecimal digit stands for. -/
def hexValue? (c : Char) : Option Nat :=
  if '0' ≤ c ∧ c ≤ '9' then some (c.toNat - 48)
  else if 'a' ≤ c ∧ c ≤ 'f' then some (c.toNat - 87)
  else if 'A' ≤ c ∧ c ≤ 'F' then some (c.toNat - 55)
  else none

/-- The number that four hexadecimal digits stand for. -/
def hexUnit? (a b c d : Char) : Option Nat :=
  match hexValue? a, hexValue? b, hexValue? c, hexValue? d with
  | some a, some b, some c, some d => some (((a * 16 + b) * 16 + c) * 16 + d)
  | _, _, _, _ => none

/-- The character that a backslash and `c` stand for. -/
def escape? (c : Char) : Option Char :=
  match c with
  | '"' => some '"'
  | '\\' => some '\\'
  | '/' => some '/'
  | 'b' => some '\x08'
  | 'f' => some '\x0c'
  | 'n' => some '\n'
  | 'r' => some '\r'
  | 't' => some '\t'
  | _ => none

/-- A string up to the quote that ends it, and the rest of the text. -/
def string? : Text → Option (JsonString × Text)
  | [] => none
  | '"' :: rest => some ([], rest)
  | '\\' :: 'u' :: a :: b :: c :: d :: rest =>
    match hexUnit? a b c d, string? rest with
    | some n, some (s, rest) => some (.escaped n :: s, rest)
    | _, _ => none
  | '\\' :: c :: rest =>
    match escape? c, string? rest with
    | some c, some (s, rest) => some (.char c :: s, rest)
    | _, _ => none
  | c :: rest =>
    if c < ' ' ∨ c = '\\' then none
    else (string? rest).map fun r => (.char c :: r.1, r.2)

theorem length_lt_of_string? {t rest : Text} {s : JsonString} (h : string? t = some (s, rest)) :
    rest.length < t.length := by
  fun_induction string? t generalizing s rest with
  | case1 => simp at h
  | case2 tail =>
    obtain ⟨-, rfl⟩ := Prod.mk.injEq .. ▸ Option.some.inj h
    simp
  -- an escape, or a character, goes in front of what the rest of the string leaves
  | case3 a b c d tail n s' rest' hs hn ih =>
    obtain ⟨-, rfl⟩ := Prod.mk.injEq .. ▸ Option.some.inj h
    have := ih hs
    simp only [List.length_cons]
    omega
  | case4 => simp at h
  | case5 c tail _ e s' rest' hs he ih =>
    obtain ⟨-, rfl⟩ := Prod.mk.injEq .. ▸ Option.some.inj h
    have := ih hs
    simp only [List.length_cons]
    omega
  | case6 => simp at h
  | case7 => simp at h
  | case8 c tail _ _ _ _ ih =>
    obtain ⟨⟨s', rest'⟩, hs, heq⟩ := Option.map_eq_some_iff.1 h
    obtain ⟨-, rfl⟩ := Prod.mk.injEq .. ▸ heq
    have := ih hs
    simp only [List.length_cons]
    omega

/-! ### Numbers -/

/-- The digits in front of a text, at least one, and the rest. -/
def digits? (t : Text) : Option (Text × Text) :=
  let digits := t.takeWhile isDigit
  if digits.isEmpty then none else some (digits, t.dropWhile isDigit)

theorem length_lt_of_digits? {t digits rest : Text} (h : digits? t = some (digits, rest)) :
    rest.length < t.length := by
  simp only [digits?] at h
  split at h
  · cases h
  · next hdigits =>
    obtain ⟨rfl, rfl⟩ := Prod.mk.injEq .. ▸ Option.some.inj h
    have hsum := congrArg List.length (List.takeWhile_append_dropWhile (p := isDigit) (l := t))
    have hpos : 0 < (t.takeWhile isDigit).length := by
      simpa [List.length_pos_iff, List.isEmpty_iff] using hdigits
    rw [List.length_append] at hsum
    omega

/-- The digits before the point of a number: no zero stands in front of other digits. -/
def whole? (t : Text) : Option (Text × Text) :=
  (digits? t).filter fun r => r.1.length = 1 || r.1.head? != some '0'

/-- The digits behind the point of a number, if there is one. -/
def fraction? : Text → Option (Option Text × Text)
  | '.' :: rest => (digits? rest).map fun r => (some r.1, r.2)
  | t => some (none, t)

/-- The digits of an exponent, with a sign. -/
def signedDigits? : Text → Option (Int × Text)
  | '-' :: rest => (digits? rest).map fun r => (-(digitsValue r.1 : Int), r.2)
  | '+' :: rest => (digits? rest).map fun r => ((digitsValue r.1 : Int), r.2)
  | t => (digits? t).map fun r => ((digitsValue r.1 : Int), r.2)

/-- The exponent of a number, if there is one. -/
def exponent? : Text → Option (Option Int × Text)
  | 'e' :: rest => (signedDigits? rest).map fun r => (some r.1, r.2)
  | 'E' :: rest => (signedDigits? rest).map fun r => (some r.1, r.2)
  | t => some (none, t)

/-- A number without its sign. -/
def unsigned? (negative : Bool) (t : Text) : Option (JsonNumeral × Text) := do
  let (whole, t) ← whole? t
  let (fraction, t) ← fraction? t
  let (exponent, t) ← exponent? t
  return (⟨negative, whole, fraction, exponent⟩, t)

theorem length_lt_of_whole? {t digits rest : Text} (h : whole? t = some (digits, rest)) :
    rest.length < t.length :=
  length_lt_of_digits? (Option.filter_eq_some_iff.1 h).1

theorem length_le_of_fraction? {t rest : Text} {f : Option Text}
    (h : fraction? t = some (f, rest)) : rest.length ≤ t.length := by
  unfold fraction? at h
  split at h
  · obtain ⟨r, hr, heq⟩ := Option.map_eq_some_iff.1 h
    obtain ⟨-, rfl⟩ := Prod.mk.injEq .. ▸ heq
    have := length_lt_of_digits? hr
    simp only [List.length_cons]
    omega
  · obtain ⟨-, rfl⟩ := Prod.mk.injEq .. ▸ Option.some.inj h
    exact Nat.le_refl _

theorem length_le_of_signedDigits? {t rest : Text} {e : Int}
    (h : signedDigits? t = some (e, rest)) : rest.length ≤ t.length := by
  unfold signedDigits? at h
  split at h
  · obtain ⟨r, hr, heq⟩ := Option.map_eq_some_iff.1 h
    obtain ⟨-, rfl⟩ := Prod.mk.injEq .. ▸ heq
    exact Nat.le_of_lt (Nat.lt_succ_of_lt (length_lt_of_digits? hr))
  · obtain ⟨r, hr, heq⟩ := Option.map_eq_some_iff.1 h
    obtain ⟨-, rfl⟩ := Prod.mk.injEq .. ▸ heq
    exact Nat.le_of_lt (Nat.lt_succ_of_lt (length_lt_of_digits? hr))
  · obtain ⟨r, hr, heq⟩ := Option.map_eq_some_iff.1 h
    obtain ⟨-, rfl⟩ := Prod.mk.injEq .. ▸ heq
    exact Nat.le_of_lt (length_lt_of_digits? hr)

theorem length_le_of_exponent? {t rest : Text} {e : Option Int}
    (h : exponent? t = some (e, rest)) : rest.length ≤ t.length := by
  unfold exponent? at h
  split at h
  · obtain ⟨r, hr, heq⟩ := Option.map_eq_some_iff.1 h
    obtain ⟨-, rfl⟩ := Prod.mk.injEq .. ▸ heq
    have := length_le_of_signedDigits? hr
    simp only [List.length_cons]
    omega
  · obtain ⟨r, hr, heq⟩ := Option.map_eq_some_iff.1 h
    obtain ⟨-, rfl⟩ := Prod.mk.injEq .. ▸ heq
    have := length_le_of_signedDigits? hr
    simp only [List.length_cons]
    omega
  · obtain ⟨-, rfl⟩ := Prod.mk.injEq .. ▸ Option.some.inj h
    exact Nat.le_refl _

theorem length_lt_of_unsigned? {negative : Bool} {t rest : Text} {n : JsonNumeral}
    (h : unsigned? negative t = some (n, rest)) : rest.length < t.length := by
  simp only [unsigned?, Option.bind_eq_bind, Option.bind_eq_some_iff, Option.pure_def,
    Option.some.injEq, Prod.mk.injEq, Prod.exists] at h
  obtain ⟨whole, t₁, hwhole, fraction, t₂, hfraction, exponent, t₃, hexponent, -, rfl⟩ := h
  have := length_lt_of_whole? hwhole
  have := length_le_of_fraction? hfraction
  have := length_le_of_exponent? hexponent
  omega

/-! ### All tokens -/

/-- The token in front of a text, which begins with no blank, and the rest. -/
def next? : Text → Option (JsonToken × Text)
  | '[' :: rest => some (openArray, rest)
  | ']' :: rest => some (closeArray, rest)
  | '\x7b' :: rest => some (openObject, rest)
  | '\x7d' :: rest => some (closeObject, rest)
  | ',' :: rest => some (comma, rest)
  | ':' :: rest => some (colon, rest)
  | 'n' :: 'u' :: 'l' :: 'l' :: rest => some (null, rest)
  | 't' :: 'r' :: 'u' :: 'e' :: rest => some (bool true, rest)
  | 'f' :: 'a' :: 'l' :: 's' :: 'e' :: rest => some (bool false, rest)
  | '"' :: rest => (string? rest).map fun r => (string r.1, r.2)
  | '-' :: rest => (unsigned? true rest).map fun r => (number r.1, r.2)
  | t => (unsigned? false t).map fun r => (number r.1, r.2)

theorem length_lt_of_next? {t rest : Text} {token : JsonToken} (h : next? t = some (token, rest)) :
    rest.length < t.length := by
  unfold next? at h
  split at h
  -- strings and numbers are longer than one character; all other tokens are words or signs
  case h_10 =>
    obtain ⟨⟨s, rest'⟩, hs, heq⟩ := Option.map_eq_some_iff.1 h
    obtain ⟨-, rfl⟩ := Prod.mk.injEq .. ▸ heq
    have := length_lt_of_string? hs
    simp only [List.length_cons]
    omega
  case h_11 =>
    obtain ⟨⟨n, rest'⟩, hn, heq⟩ := Option.map_eq_some_iff.1 h
    obtain ⟨-, rfl⟩ := Prod.mk.injEq .. ▸ heq
    have := length_lt_of_unsigned? hn
    simp only [List.length_cons]
    omega
  case h_12 =>
    obtain ⟨⟨n, rest'⟩, hn, heq⟩ := Option.map_eq_some_iff.1 h
    obtain ⟨-, rfl⟩ := Prod.mk.injEq .. ▸ heq
    exact length_lt_of_unsigned? hn
  all_goals
    obtain ⟨-, rfl⟩ := Prod.mk.injEq .. ▸ Option.some.inj h
    simp only [List.length_cons]
    omega

/-- The tokens of a text; `none` if it holds anything else. -/
def all? (t : Text) : Option (List JsonToken) :=
  match t with
  | [] => some []
  | c :: rest =>
    if isBlank c then all? rest
    else
      match _h : next? (c :: rest) with
      | none => none
      | some (token, rest) => (all? rest).map (token :: ·)
termination_by t.length
decreasing_by
  · simp
  · exact length_lt_of_next? _h

end JsonToken

end Stencil
