import Stencil.Number.Shortest
import Stencil.Value.Printed

/-!
# Data that becomes values

Programs hand over their data as a tree of what they say about it, one node for each thing said:
a truth value, a number, a text, a sequence, a record, a mapping given key by key and value by
value, one variant of several. A datum becomes a value, or is refused with the first fault in the
order in which things were said:

* the program may fail by itself (`Datum.failure`);
* the key of a mapping must become a text, a whole number or a truth value;
* a value of a mapping needs a key that was given since the value before it.
-/

namespace Stencil

/-- Whether one of the calls that describe a mapping gives a key or a value. -/
inductive MapRole where
  | key
  | value
  deriving DecidableEq, Repr

/-- A **datum**: what a program says about a piece of its data. -/
inductive Datum where
  /-- No data. -/
  | absent
  | bool (b : Bool)
  /-- A whole number of a type with a sign. -/
  | signed (n : Int)
  /-- A whole number of a type without a sign. -/
  | unsigned (n : Nat)
  | float (x : Double)
  | text (t : Text)
  | bytes (b : List UInt8)
  /-- Data inside a wrapper that says nothing itself. -/
  | wrapped (datum : Datum)
  | sequence (items : List Datum)
  /-- Fields with fixed names. -/
  | record (fields : List (Text × Datum))
  /-- A mapping, as the keys and the values in the order in which they were given. -/
  | mapping (calls : List (MapRole × Datum))
  /-- One of several variants, with its name and its data. -/
  | variant (name : Text) (datum : Datum)
  /-- The program could not say what the data is. -/
  | failure (message : Text)
  deriving Repr, Inhabited

/-- Why a datum is no value. -/
inductive DatumError where
  /-- The program failed with a message of its own. -/
  | failed (message : Text)
  /-- A key of a mapping became a value of a type that cannot be a name. -/
  | keyType (typeName : String)
  /-- A value of a mapping was given without a key. -/
  | valueWithoutKey
  deriving DecidableEq, Repr

/-- The message of an error. -/
def DatumError.message (e : DatumError) : String :=
  let reason := match e with
    | failed message => String.ofList message
    | keyType typeName => s!"map key must be string, integer, or bool, got {typeName}"
    | valueWithoutKey => "map value serialized before its key"
  s!"serialization failed: {reason}"

/-! ### Whole numbers -/

/-- A whole number of a type with a sign: a 64-bit word if it fits, or else the nearest double. -/
def Value.ofSigned (n : Int) : Value :=
  if -0x8000000000000000 ≤ n ∧ n < 0x8000000000000000 then .signed (Int64.ofInt n)
  else .float (.ofInt n)

/-- A whole number of a type without a sign: a 64-bit word if it fits, or else the nearest
double. -/
def Value.ofUnsigned (n : Nat) : Value :=
  if n < wordCount then .unsigned (UInt64.ofNat n) else .float (.ofInt n)

/-! ### Mappings -/

/-- The name that a key of a mapping becomes. -/
def Value.asKey : Value → Except DatumError Text
  | .text t => .ok t
  | .bool b => .ok (Value.bool b).printed
  | .unsigned n => .ok (Value.unsigned n).printed
  | .signed n => .ok (Value.signed n).printed
  | v => .error (.keyType v.typeName)

/-- The fields of a mapping so far, and the key that waits for its value. -/
structure OpenMap where
  fields : List (Text × Value)
  key : Option Text

/-! ### The conversion -/

mutual

/-- The value that a datum becomes. -/
def Datum.toValue : Datum → Except DatumError Value
  | .absent => .ok .null
  | .bool b => .ok (.bool b)
  | .signed n => .ok (.ofSigned n)
  | .unsigned n => .ok (.ofUnsigned n)
  | .float x => .ok (.float x)
  | .text t => .ok (.text t)
  | .bytes b => .ok (.list (b.map fun n => .unsigned n.toUInt64))
  | .wrapped datum => datum.toValue
  | .sequence items => do return .list (← itemsToValues items)
  | .record fields => do return .map (← fieldsToValues [] fields)
  | .mapping calls => do return .map (← callsToFields ⟨[], none⟩ calls)
  | .variant name datum => do return .map [(name, ← datum.toValue)]
  | .failure message => .error (.failed message)

/-- The values that the items of a sequence become. -/
def itemsToValues : List Datum → Except DatumError (List Value)
  | [] => .ok []
  | item :: rest => do
    let v ← item.toValue
    return v :: (← itemsToValues rest)

/-- The fields that the fields of a record become, after those in `before`. -/
def fieldsToValues (before : List (Text × Value)) :
    List (Text × Datum) → Except DatumError (List (Text × Value))
  | [] => .ok before
  | (name, datum) :: rest => do
    let v ← datum.toValue
    fieldsToValues (Fields.set name v before) rest

/-- The fields that the calls for a mapping lead to. A key takes the place of one that still waits;
a key that still waits at the end is dropped. -/
def callsToFields (state : OpenMap) :
    List (MapRole × Datum) → Except DatumError (List (Text × Value))
  | [] => .ok state.fields
  | (.key, datum) :: rest => do
    let key ← (← datum.toValue).asKey
    callsToFields { state with key := some key } rest
  | (.value, datum) :: rest =>
    match state.key with
    | none => .error .valueWithoutKey
    | some key => do
      let v ← datum.toValue
      callsToFields ⟨Fields.set key v state.fields, none⟩ rest

end

/-- The value that a datum becomes, `undefined` if it is refused. -/
def Datum.toValueD (datum : Datum) : Value :=
  match datum.toValue with
  | .ok v => v
  | .error _ => .undefined

end Stencil
