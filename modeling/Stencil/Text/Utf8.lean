import Stencil.Text.Basic

/-!
# Text as bytes

Places in a source are counted in UTF-8 bytes, as editors and files count them; the measure
`Text.size` turns a part of a source into that count. Files hold bytes, and the text of a file is
what UTF-8 makes of them. Encoding always succeeds; decoding succeeds exactly on the bytes of some
text, which is then the one and only result.

* `size_append` — sizes add up, so the place of a tag is the size of what stands before it;
* `takeBytes_append_dropBytes` — cutting a text at a byte place loses nothing;
* `ofBytes?_eq_some_iff` — what decodes to a text are the bytes that encode it.
-/

namespace Stencil.Text

/-! ### Sizes -/

/-- The number of bytes that `t` takes in UTF-8. -/
def size : Text → Nat
  | [] => 0
  | c :: t => c.utf8Size + size t

@[simp] theorem size_nil : size [] = 0 := rfl

@[simp] theorem size_cons (c : Char) (t : Text) : size (c :: t) = c.utf8Size + size t := rfl

@[simp] theorem size_append (a b : Text) : size (a ++ b) = size a + size b := by
  induction a with
  | nil => simp
  | cons c a ih => simp [ih, Nat.add_assoc]

/-- The longest beginning of a text that takes at most `n` bytes: its end is the last character
boundary that is not beyond byte `n`. -/
def takeBytes : Nat → Text → Text
  | _, [] => []
  | n, c :: t => if c.utf8Size ≤ n then c :: takeBytes (n - c.utf8Size) t else []

/-- What `takeBytes` leaves over. -/
def dropBytes : Nat → Text → Text
  | _, [] => []
  | n, c :: t => if c.utf8Size ≤ n then dropBytes (n - c.utf8Size) t else c :: t

theorem takeBytes_append_dropBytes (n : Nat) (t : Text) :
    takeBytes n t ++ dropBytes n t = t := by
  induction t generalizing n with
  | nil => rfl
  | cons c t ih =>
    by_cases h : c.utf8Size ≤ n
    · simp [takeBytes, dropBytes, h, ih]
    · simp [takeBytes, dropBytes, h]

theorem takeBytes_size_append (a b : Text) : takeBytes a.size (a ++ b) = a := by
  induction a with
  | nil =>
    cases b with
    | nil => rfl
    | cons c b =>
      have hpos := c.utf8Size_pos
      rw [List.nil_append, size_nil, takeBytes, if_neg (by omega)]
  | cons c a ih =>
    rw [List.cons_append, size_cons, takeBytes, if_pos (by omega), Nat.add_sub_cancel_left, ih]

theorem size_takeBytes_le (n : Nat) (t : Text) : size (takeBytes n t) ≤ n := by
  induction t generalizing n with
  | nil => simp [takeBytes]
  | cons c t ih =>
    by_cases h : c.utf8Size ≤ n
    · have := ih (n - c.utf8Size)
      simp only [takeBytes, h, if_true, size_cons]
      omega
    · simp [takeBytes, h]

/-! ### Encoding -/

/-- The UTF-8 bytes of a text. -/
def toBytes (t : Text) : ByteArray :=
  (String.ofList t).toUTF8

/-- The text that `bytes` encode, if they are well-formed UTF-8. -/
def ofBytes? (bytes : ByteArray) : Option Text :=
  (String.fromUTF8? bytes).map String.toList

/-- The UTF-8 bytes of a text as a list. -/
def bytes (t : Text) : List UInt8 :=
  t.flatMap String.utf8EncodeChar

theorem ofBytes?_toBytes (t : Text) : ofBytes? (toBytes t) = some t := by
  have h : String.fromUTF8? (toBytes t) = some (String.ofList t) :=
    dif_pos (String.ofList t).isValidUTF8
  rw [ofBytes?, h, Option.map_some, String.toList_ofList]

theorem ofBytes?_eq_some_iff {b : ByteArray} {t : Text} : ofBytes? b = some t ↔ b = toBytes t := by
  constructor
  · intro h
    simp only [ofBytes?, String.fromUTF8?, Option.map_eq_some_iff] at h
    obtain ⟨s, hs, rfl⟩ := h
    split at hs
    · cases hs
      simp [toBytes, String.fromUTF8, String.toUTF8]
    · cases hs
  · rintro rfl
    exact ofBytes?_toBytes t

end Stencil.Text
