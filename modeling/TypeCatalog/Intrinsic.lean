/-
The primitive types, and the numbers by which types and declarations go.
-/

namespace TypeCatalog

/-- The number of a type in the program that owns it. -/
structure TypeHandle where
  index : Nat
  deriving DecidableEq

instance : Inhabited TypeHandle := ⟨⟨0⟩⟩

/-- The number of a declaration. -/
structure DeclId where
  index : Nat
  deriving DecidableEq

instance : Inhabited DeclId := ⟨⟨0⟩⟩

/-- The primitive types; every table shares one record for each. -/
inductive Intrinsic where
  | any
  | string
  | number
  | boolean
  | symbol
  | void
  | undefined
  | null
  | never
  | this
  deriving DecidableEq

namespace Intrinsic

/-- The primitive types in the order of their handles. -/
def all : List Intrinsic :=
  [any, string, number, boolean, symbol, void, undefined, null, never, this]

/-- The name of a primitive type. -/
def name : Intrinsic → String
  | any => "any"
  | string => "string"
  | number => "number"
  | boolean => "boolean"
  | symbol => "symbol"
  | void => "void"
  | undefined => "undefined"
  | null => "null"
  | never => "never"
  | this => "this"

/-- The place of a primitive type among all of them. -/
def position : Intrinsic → Nat
  | any => 0
  | string => 1
  | number => 2
  | boolean => 3
  | symbol => 4
  | void => 5
  | undefined => 6
  | null => 7
  | never => 8
  | this => 9

/-- The handle that is kept for a primitive type in every program. -/
def handle (k : Intrinsic) : TypeHandle := ⟨k.position⟩

/-- The primitive types by their names. -/
def names : List (String × Intrinsic) := all.map fun k => (k.name, k)

/-- The primitive type of a name. -/
def ofName? (name : String) : Option Intrinsic := all.find? (·.name == name)

/-- How many handles the primitive types take. -/
def count : Nat := 10

@[simp] theorem length_all : all.length = count := rfl

end Intrinsic

end TypeCatalog
