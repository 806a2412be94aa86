import Stencil.Fields
import Stencil.Number.Double

/-!
# Values

A value is what a name in a template can stand for. Whole numbers are 64-bit words, with or without
a sign; fractional numbers are doubles; a mapping keeps the order of its fields. `undefined` is what
a look-up gives when nothing is there, and `null` is a value that says so itself.

Values are equal as `Value.equals` says: numbers of different types are equal when they are the same
number, and mappings whatever the order of their fields.
-/

namespace Stencil

/-- A **value**. The fields of a mapping have distinct names wherever this library makes one. -/
inductive Value where
  /-- Nothing was there. -/
  | undefined
  | null
  | bool (b : Bool)
  /-- A whole number from `0` to `2 ^ 64 - 1`. -/
  | unsigned (n : UInt64)
  /-- A whole number from `- 2 ^ 63` to `2 ^ 63 - 1`. -/
  | signed (n : Int64)
  | float (x : Double)
  | text (t : Text)
  | list (items : List Value)
  | map (fields : List (Text × Value))
  deriving Repr, Inhabited

namespace Value

/-- The name of a value's type, as error messages use it. -/
def typeName : Value → String
  | undefined => "undefined"
  | null => "null"
  | bool _ => "bool"
  | unsigned _ => "u64"
  | signed _ => "i64"
  | float _ => "f64"
  | text _ => "string"
  | list _ => "array"
  | map _ => "map/struct"

/-! ### Views -/

/-- The whole number that a value is, if it is one. -/
def integer? : Value → Option Int
  | unsigned n => some n.toNat
  | signed n => some n.toInt
  | _ => none

/-- The double nearest to the number that a value is, if it is one. -/
def double? : Value → Option Double
  | unsigned n => some (.ofInt n.toNat)
  | signed n => some (.ofInt n.toInt)
  | float x => some x
  | _ => none

/-- The characters of a text. -/
def text? : Value → Option Text
  | text t => some t
  | _ => none

/-- The items of a list. -/
def items? : Value → Option (List Value)
  | list items => some items
  | _ => none

/-- The fields of a mapping. -/
def fields? : Value → Option (List (Text × Value))
  | map fields => some fields
  | _ => none

/-! ### Equality -/

/-- Whether two numbers are equal: as doubles if one of them is a double, or else as whole
numbers. What is no number is not equal to anything here. -/
def equalNumbers (v w : Value) : Bool :=
  match v, w with
  | float x, w => (double? w).any (x.equals ·)
  | v, float y => (double? v).any (y.equals ·)
  | v, w =>
    match integer? v, integer? w with
    | some m, some n => m = n
    | _, _ => false

mutual

/-- Whether two values are equal: texts and truth values by what they hold, numbers as numbers,
lists item by item, and mappings by their look-ups. -/
def equals : Value → Value → Bool
  | undefined, undefined => true
  | null, null => true
  | bool a, bool b => a == b
  | text s, text t => s == t
  | list xs, list ys => equalItems xs ys
  | map fs, map gs => fs.length == gs.length && equalFields fs gs
  | v, w => equalNumbers v w

/-- Whether two lists are equal item by item. -/
def equalItems : List Value → List Value → Bool
  | [], [] => true
  | x :: xs, y :: ys => equals x y && equalItems xs ys
  | _, _ => false

/-- Whether each of the fields `fs` has an equal one of the same name among `gs`. -/
def equalFields : List (Text × Value) → List (Text × Value) → Bool
  | [], _ => true
  | (name, x) :: fs, gs =>
    (match Fields.get? name gs with
      | some y => equals x y
      | none => false) && equalFields fs gs

end

end Value

end Stencil
