/-
A table as a script that registers itself.

The script makes all slots first (`_l[n]`), then the primitive types
(`_type_number`, …), then the names of the packages, and last the fields of
every record; a record may refer to one that is filled in later.
-/
import TypeCatalog.Script.Writer
import TypeCatalog.Table.Codec
import TypeCatalog.Identifier

namespace TypeCatalog

namespace Script

open Step

/-- An object that is an edge, as the script writes edges; whatever number stands under `slot`
is written as the number of a slot. -/
def edgeExpression? : List (String × Json) → Option (List Char)
  | [(key, .integer n)] =>
    if key = "slot" then some ("_l[".toList ++ Json.digits n ++ [']']) else none
  | [(key, .real x)] =>
    if key = "slot" then some ("_l[".toList ++ x.render .data ++ [']']) else none
  | [(key, .string kind)] =>
    if key = "intrinsic" then some ("_type_".toList ++ kind.toList) else none
  | _ => none

/-- The key of a property, in quotes if it has to be. -/
def propertyKey (key : String) : Step :=
  if Identifier.isPlain key then text key else literal key

mutual

/-- The steps that write a value. -/
def valueSteps : Json → List Step
  | .null => [text "null"]
  | .bool true => [text "true"]
  | .bool false => [text "false"]
  | .integer i => [.write (Json.digits i)]
  | .real x => [.write (x.render .data)]
  | .string s => [literal s]
  | .array [] => [text "[]"]
  | .array (item :: rest) =>
    text "[" :: .newLine :: .indent :: (itemSteps (item :: rest) ++ [.dedent, text "]"])
  | .object fields =>
    match edgeExpression? fields with
    | some expression => [.write expression]
    | none =>
      if fields.isEmpty then [text "\x7b\x7d"]
      else text "\x7b" :: .newLine :: .indent :: (fieldSteps fields ++ [.dedent, text "\x7d"])

/-- The steps that write items, each with a comma on its own line. -/
def itemSteps : List Json → List Step
  | [] => []
  | item :: rest => valueSteps item ++ text "," :: .newLine :: itemSteps rest

/-- The steps that write properties, each with a comma on its own line. -/
def fieldSteps : List (String × Json) → List Step
  | [] => []
  | (key, value) :: rest =>
    propertyKey key :: text ": " :: (valueSteps value ++ text "," :: .newLine :: fieldSteps rest)

end

/-- Fills in a field of a record. -/
def assignment (field : String) (value : Json) : List Step :=
  text ("_t." ++ field ++ " = ") :: (valueSteps value ++ line ";")

/-- The fields of a value. -/
def fieldsOf : Json → List (String × Json)
  | .object fields => fields
  | _ => []

/-- Fills in a record. -/
def nodeSteps (n : TypeNode) : List Step :=
  line ("_t = _l[" ++ toString n.slot.index ++ "];")
    ++ ((fieldsOf n.toJson).filter (·.1 ≠ "slot")).flatMap fun e => assignment e.1 e.2

/-- Makes a primitive type. -/
def intrinsicSteps (k : Intrinsic) : List Step :=
  text ("var _type_" ++ k.name ++ " = \x7b kind: ") :: literal k.name :: line " \x7d;"

/-- Publishes the names of a package. -/
def packageSteps (package : String) (names : PackageTable) : List Step :=
  literal package :: (line ": \x7b" ++ .indent
    :: (names.entries.flatMap fun e =>
        literal e.1 :: line (": _l[" ++ toString e.2.index ++ "],"))
    ++ .dedent :: line "\x7d,")

/-- The steps that write a table. -/
def tableSteps (t : MetadataTable) : List Step :=
  line "/* Reflection metadata generated by tsr. */"
    ++ line "(function (globalObj) \x7b" ++ .indent
    :: line "var Reflection = globalObj.Reflection || (globalObj.Reflection = \x7b $libs: Object.create(null) \x7d);"
    ++ line "var _l = [];"
    ++ line ("for (var _cnt = 0; _cnt < " ++ toString t.slotCount ++ "; _cnt++) \x7b") ++ .indent
    :: line "_l[_cnt] = Object.create(null);" ++ .dedent
    :: line "\x7d"
    ++ t.intrinsics.flatMap intrinsicSteps
    ++ text "Reflection.$libs[" :: literal t.library :: line "] = \x7b" ++ .indent
    :: t.packages.entries.flatMap (fun e => packageSteps e.1 e.2) ++ .dedent
    :: line "\x7d;"
    ++ line "var _t;"
    ++ t.populations.flatMap nodeSteps ++ .dedent
    :: line "\x7d)(typeof globalThis !== 'undefined' ? globalThis : this);"

/-- The text of a table's script. -/
def render (newLine : NewLine) (t : MetadataTable) : String := run newLine (tableSteps t)

end Script

end TypeCatalog
