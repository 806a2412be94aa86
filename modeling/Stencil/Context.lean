import Stencil.NameMap
import Stencil.Value.Datum
import Stencil.Value.Lookup

/-!
# Contexts

A context holds what the names in a template stand for, in the order of the names. It is filled name
by name, or all at once from a datum that becomes a mapping.
-/

namespace Stencil

/-- A **context**: what names stand for. -/
abbrev Context := NameMap Value

/-- Why a datum makes no context. -/
inductive ContextError where
  /-- The datum became no value. -/
  | datum (cause : DatumError)
  /-- It became a value of a type that has no fields. -/
  | noFields (typeName : String)
  deriving DecidableEq, Repr

/-- The message of an error. -/
def ContextError.message : ContextError → String
  | datum _ => "Failed to serialize the context"
  | noFields typeName => s!"from_serialize requires a struct or map, got {typeName}"

namespace Context

/-- The context that binds the fields of a mapping. -/
def ofFields (fields : List (Text × Value)) : Context :=
  NameMap.ofList fields

/-- The context that binds the fields of the mapping which a datum becomes. -/
def ofDatum (datum : Datum) : Except ContextError Context :=
  match datum.toValue with
  | .error e => .error (.datum e)
  | .ok v =>
    match v.fields? with
    | some fields => .ok (ofFields fields)
    | none => .error (.noFields v.typeName)

/-- The context in which `name` also stands for the value that a datum becomes; `undefined` if it
becomes none. -/
def insertDatum (c : Context) (name : Text) (datum : Datum) : Context :=
  c.insert name datum.toValueD

/-- What a path leads to, from the name that its first segment is. -/
def lookup (c : Context) (path : Text) : Value :=
  match path.pieces '.' with
  | [] => .undefined
  | first :: rest => ((c.get? first).getD .undefined).descend rest

end Context

/-- The mapping with the bindings of a context, in the order of the names. -/
def Value.ofContext (c : Context) : Value :=
  .map c.entries

/-- The mapping with the given entries, which come in no particular order: its fields are in the
order of their names. -/
def Value.ofUnordered (entries : List (Text × Value)) : Value :=
  .map (NameMap.ofList entries).entries

end Stencil
