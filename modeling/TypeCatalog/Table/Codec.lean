/-
Tables as JSON.
-/
import TypeCatalog.Table
import TypeCatalog.Node.Codec
import TypeCatalog.Json.Printer

namespace TypeCatalog

open Json

namespace PackageTable

/-- The names of a package as data. -/
def toJson (names : PackageTable) : Json :=
  .object (names.entries.map fun e => (e.1, e.2.toJson))

end PackageTable

namespace MetadataTable

/-- A table as data. -/
def toJson (t : MetadataTable) : Json :=
  .object [("library", .string t.library), ("slotCount", .nat t.slotCount),
    ("intrinsics", .ofList (fun k => .string k.name) t.intrinsics),
    ("packages", .object (t.packages.entries.map fun e => (e.1, PackageTable.toJson e.2))),
    ("populations", .ofList TypeNode.toJson t.populations)]

/-- The text of a table. -/
def toText (t : MetadataTable) : String := t.toJson.pretty

/-- The fields of a table. -/
def fields : Fields MetadataTable :=
  MetadataTable.mk
    <$> .required "library" .text
    <*> .required "slotCount" .natural32
    <*> .required "intrinsics" (.list Intrinsic.decode)
    <*> .required "packages" (.dictionary (.dictionary SlotId.decode))
    <*> .required "populations" (.list TypeNode.decode)

/-- Reads a table from its text. -/
def read (text : String) : Except Problem MetadataTable := decodeText fields.decode text

end MetadataTable

end TypeCatalog
