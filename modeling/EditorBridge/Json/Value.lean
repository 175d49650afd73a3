/-
JSON values.  Integers have any size and are kept apart from numbers with a
point or an exponent; the fields of an object keep their order.
-/
import EditorBridge.Number.Shortest
import EditorBridge.Text.CodePoint

namespace EditorBridge

/-- A JSON value. -/
inductive Json where
  | null
  | bool (value : Bool)
  | int (value : Int)
  | float (value : Number.Binary64)
  | str (value : Text)
  | arr (items : List Json)
  | obj (fields : List (Text × Json))
deriving Inhabited, Repr

namespace Json

abbrev Fields := List (Text × Json)

/-- The value of a field. -/
def Fields.get? (fields : Fields) (key : Text) : Option Json :=
  (fields.find? fun field => field.1 == key).map (·.2)

/-- Set a field.  A field that is there already keeps its place. -/
def Fields.set (fields : Fields) (key : Text) (value : Json) : Fields :=
  if fields.any fun field => field.1 == key then
    fields.map fun field => if field.1 == key then (key, value) else field
  else fields ++ [(key, value)]

/-- The value of a field of an object. -/
def get? : Json → Text → Option Json
  | .obj fields, key => Fields.get? fields key
  | _, _ => none

/-- Whether the value says anything: `null`, `false`, zero and whatever is empty
do not. -/
def isTruthy : Json → Bool
  | .null => false
  | .bool b => b
  | .int n => n != 0
  | .float x => !x.isZero
  | .str s => !s.isEmpty
  | .arr items => !items.isEmpty
  | .obj fields => !fields.isEmpty

def isNull : Json → Bool
  | .null => true
  | _ => false

mutual

/-- Whether every integer in a value can be written. -/
def isWritable : Json → Bool
  | .int n => decide (Text.IsConvertible n.natAbs)
  | .arr items => allWritable items
  | .obj fields => fieldsWritable fields
  | _ => true

/-- Whether every integer in some values can be written. -/
def allWritable : List Json → Bool
  | [] => true
  | item :: rest => item.isWritable && allWritable rest

/-- Whether every integer in some fields can be written. -/
def fieldsWritable : Fields → Bool
  | [] => true
  | (_, value) :: rest => value.isWritable && fieldsWritable rest

end

end Json

end EditorBridge
