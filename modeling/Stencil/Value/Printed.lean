import Stencil.Number.Shortest
import Stencil.Text.Printable
import Stencil.Value.Basic

/-!
# The text of a value

A tag that names a value writes its text. Nothing and `null` write nothing, also inside a list or a
mapping; numbers are written in decimal, in full; a text stands for itself, but is quoted inside a
list or a mapping, as the names of fields are. So a list reads `[1, "a"]` and a mapping
`{"z": 1, "a": "b"}`, its fields in their order.
-/

namespace Stencil.Value

mutual

/-- The text that a tag writes for a value. -/
def printed : Value → Text
  | undefined => []
  | null => []
  | bool b => if b then "true".toList else "false".toList
  | unsigned n => decimal n.toNat
  | signed n => signedDecimal n.toInt
  | float x => x.text
  | text t => t
  | list items => '[' :: printedItems items
  | map fields => '\x7b' :: printedFields fields

/-- The text of a value inside a list or a mapping: texts are quoted there. -/
def printedInside : Value → Text
  | text t => t.quoted
  | undefined => []
  | null => []
  | bool b => if b then "true".toList else "false".toList
  | unsigned n => decimal n.toNat
  | signed n => signedDecimal n.toInt
  | float x => x.text
  | list items => '[' :: printedItems items
  | map fields => '\x7b' :: printedFields fields

/-- The items of a list, up to the bracket that closes it. -/
def printedItems : List Value → Text
  | [] => [']']
  | [v] => printedInside v ++ [']']
  | v :: w :: rest => printedInside v ++ ',' :: ' ' :: printedItems (w :: rest)

/-- The fields of a mapping, up to the curly bracket that closes it. -/
def printedFields : List (Text × Value) → Text
  | [] => ['\x7d']
  | [(name, v)] => name.quoted ++ ':' :: ' ' :: printedInside v ++ ['\x7d']
  | (name, v) :: field :: rest =>
    name.quoted ++ ':' :: ' ' :: printedInside v ++ ',' :: ' ' :: printedFields (field :: rest)

end

/-- Inside a list or a mapping only texts are written in another way than outside. -/
theorem printedInside_eq_printed {v : Value} (h : v.text? = none) :
    v.printedInside = v.printed := by
  cases v <;> simp_all [printed, printedInside, text?]

end Stencil.Value
