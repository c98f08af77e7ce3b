/-
JSON values.

An object is the list of its fields as they stand, so that the order of fields
is part of the value.  Whole numbers within 64 bits are kept apart from the
others, because only they stand for handles and counts.
-/
import TypeCatalog.Binary64

namespace TypeCatalog

/-- A JSON value. -/
inductive Json where
  | null
  | bool (value : Bool)
  | integer (value : Int)
  | real (value : Binary64)
  | string (value : String)
  | array (items : List Json)
  | object (fields : List (String × Json))

namespace Json

instance : Inhabited Json := ⟨null⟩

/-- A natural number as a value. -/
def nat (n : Nat) : Json := .integer n

/-- A value that may be absent, written as `null` if it is. -/
def ofOption (f : α → Json) : Option α → Json
  | none => .null
  | some a => f a

/-- A list of values. -/
def ofList (f : α → Json) (as : List α) : Json := .array (as.map f)

/-- The first field of that name. -/
def field? (name : String) : Json → Option Json
  | .object fields => (fields.find? (·.1 == name)).map Prod.snd
  | _ => none

end Json

/-! ### Fields that are written only when there is something to say -/

namespace Field

/-- A field that is always written. -/
def always (name : String) (value : Json) : List (String × Json) := [(name, value)]

/-- A field that is left out when its value is absent. -/
def whenSome (name : String) (f : α → Json) : Option α → List (String × Json)
  | none => []
  | some a => [(name, f a)]

/-- A field that is left out when its list is empty. -/
def whenAny (name : String) (f : α → Json) : List α → List (String × Json)
  | [] => []
  | as => [(name, .ofList f as)]

/-- A flag that is written only when it is set. -/
def whenTrue (name : String) (flag : Bool) : List (String × Json) :=
  if flag then [(name, .bool true)] else []

end Field

end TypeCatalog
