import Stencil.Number.Digits

/-!
# JSON texts

A JSON text is kept as it was written: numbers as digits, and strings as characters and escaped
16-bit units. What a number or a string stands for is only asked of those parts that matter, so a
text may hold numbers beyond all bounds, or halves of characters, where nobody looks at them.

* `JsonString.text?` — the text that a string stands for;
* `JsonTree.depth` — how deep lists and objects are nested.
-/

namespace Stencil

/-- Why a text is not the JSON that was expected. -/
inductive JsonFault where
  /-- It breaks the rules of the format. -/
  | malformed
  /-- Lists and objects are nested too deep. -/
  | tooDeep
  /-- A number is beyond the largest double. -/
  | numberTooLarge
  /-- A string holds half of a character. -/
  | halfCharacter
  deriving DecidableEq, Repr

/-- What is wrong, in words. -/
def JsonFault.message : JsonFault → String
  | malformed => "invalid JSON"
  | tooDeep => "recursion limit exceeded"
  | numberTooLarge => "number out of range"
  | halfCharacter => "lone surrogate in hex escape"

/-- A part of a string as it is written. -/
inductive JsonUnit where
  | char (c : Char)
  /-- An escape of four hexadecimal digits, which gives 16 bits. -/
  | escaped (n : Nat)
  deriving DecidableEq, Repr

/-- A string as it is written. -/
abbrev JsonString := List JsonUnit

namespace JsonString

/-- Whether 16 bits are the first half of a character. -/
def isHighHalf (n : Nat) : Bool :=
  0xD800 ≤ n && n < 0xDC00

/-- Whether 16 bits are the second half of a character. -/
def isLowHalf (n : Nat) : Bool :=
  0xDC00 ≤ n && n < 0xE000

/-- The character that has two halves. -/
def ofHalves (high low : Nat) : Char :=
  Char.ofNat (0x10000 + (high - 0xD800) * 0x400 + (low - 0xDC00))

/-- The text that a string stands for; `none` if it holds half of a character. -/
def text? : JsonString → Option Text
  | [] => some []
  | .char c :: rest => (text? rest).map (c :: ·)
  | [.escaped n] => if isHighHalf n || isLowHalf n then none else some [Char.ofNat n]
  | .escaped n :: next :: rest =>
    if isHighHalf n then
      match next with
      | .escaped low => if isLowHalf low then (text? rest).map (ofHalves n low :: ·) else none
      | .char _ => none
    else if isLowHalf n then none
    else (text? (next :: rest)).map (Char.ofNat n :: ·)

end JsonString

/-- A number as it is written. -/
structure JsonNumeral where
  negative : Bool
  /-- The digits before the point. -/
  whole : Text
  /-- The digits behind the point, if there is one. -/
  fraction : Option Text
  exponent : Option Int
  deriving DecidableEq, Repr

/-- A **JSON text**: a value with everything in it, in the order in which it is written. -/
inductive JsonTree where
  | null
  | bool (b : Bool)
  | number (n : JsonNumeral)
  | string (s : JsonString)
  | array (items : List JsonTree)
  | object (members : List (JsonString × JsonTree))
  deriving Repr, Inhabited

namespace JsonTree

mutual

/-- How deep lists and objects are nested. -/
def depth : JsonTree → Nat
  | array items => depthOfItems items + 1
  | object members => depthOfMembers members + 1
  | _ => 0

/-- How deep lists and objects are nested in the items of a list. -/
def depthOfItems : List JsonTree → Nat
  | [] => 0
  | item :: rest => max item.depth (depthOfItems rest)

/-- How deep lists and objects are nested in the members of an object. -/
def depthOfMembers : List (JsonString × JsonTree) → Nat
  | [] => 0
  | (_, v) :: rest => max v.depth (depthOfMembers rest)

end

end JsonTree

end Stencil
