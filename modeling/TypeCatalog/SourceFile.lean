/-
Source files, as far as the catalogue looks at them.

A file is a name and a list of statements.  Classes, interfaces and aliases
name a declaration; namespaces hold statements of their own; everything else is
one and the same.
-/
import TypeCatalog.Intrinsic
import TypeCatalog.Json.Decoder

namespace TypeCatalog

/-- A statement of a source file. -/
inductive Statement where
  | nameSpace (name : String) (statements : List Statement)
  | classDeclaration (decl : DeclId) (name : Option String)
  | interfaceDeclaration (decl : DeclId) (name : Option String)
  | typeAlias (decl : DeclId) (name : String)
  | other

instance : Inhabited Statement := ⟨.other⟩

/-- A source file. -/
structure SourceFile where
  fileName : String
  statements : List Statement
  /-- Whether the file only declares what exists elsewhere; it has no package then. -/
  isDeclarationFile : Bool

instance : Inhabited SourceFile := ⟨⟨"", [], false⟩⟩

namespace SourceFile

/-- A file without statements; its name says whether it is a declaration file. -/
def new (fileName : String) : SourceFile := ⟨fileName, [], fileName.endsWith ".d.ts"⟩

end SourceFile

/-- The kinds of declaration that can be found by name. -/
inductive DeclarationKind where
  | classKind
  | interfaceKind
  deriving DecidableEq

namespace DeclarationKind

/-- The word for a kind of declaration. -/
def name : DeclarationKind → String
  | classKind => "class"
  | interfaceKind => "interface"

end DeclarationKind

open Json

/-- A handle as data. -/
def TypeHandle.toJson (h : TypeHandle) : Json := .nat h.index

/-- Reads a handle. -/
def TypeHandle.decode : Decoder TypeHandle := Decoder.natural32.map TypeHandle.mk

/-- A declaration's number as data. -/
def DeclId.toJson (d : DeclId) : Json := .nat d.index

/-- Reads a declaration's number. -/
def DeclId.decode : Decoder DeclId := Decoder.natural32.map DeclId.mk

/-- Reads the name of a primitive type. -/
def Intrinsic.decode : Decoder Intrinsic := .oneOf Intrinsic.names

namespace Statement

/-- The words by which statements are told apart. -/
def kinds : List String := ["namespace", "class", "interface", "typeAlias", "other"]

/-- Reads a statement whose namespaces nest at most as deep as the bound. -/
def decodeUpTo : Nat → Decoder Statement
  | 0 => fun _ _ => .error (.fault .malformed)
  | bound + 1 => fun source draft => do
    let (kind, contents) ← readTag "kind" kinds source draft
    if kind = "namespace" then
      contents.decode (Statement.nameSpace
        <$> .required "name" .text <*> .many "statements" (decodeUpTo bound))
    else if kind = "class" then
      contents.decode (Statement.classDeclaration
        <$> .required "decl" DeclId.decode <*> .maybe "name" .text)
    else if kind = "interface" then
      contents.decode (Statement.interfaceDeclaration
        <$> .required "decl" DeclId.decode <*> .maybe "name" .text)
    else if kind = "typeAlias" then
      contents.decode (Statement.typeAlias
        <$> .required "decl" DeclId.decode <*> .required "name" .text)
    else contents.decodeNothing .other

/-- Reads a statement; no deeper nesting can be read as JSON. -/
def decode : Decoder Statement := decodeUpTo greatestDepth

mutual

/-- A statement as data. -/
def toJson : Statement → Json
  | nameSpace name statements =>
    .object [("kind", .string "namespace"), ("name", .string name),
      ("statements", .array (listToJson statements))]
  | classDeclaration decl name =>
    .object [("kind", .string "class"), ("decl", decl.toJson),
      ("name", .ofOption .string name)]
  | interfaceDeclaration decl name =>
    .object [("kind", .string "interface"), ("decl", decl.toJson),
      ("name", .ofOption .string name)]
  | typeAlias decl name =>
    .object [("kind", .string "typeAlias"), ("decl", decl.toJson), ("name", .string name)]
  | other => .object [("kind", .string "other")]

/-- Statements as data. -/
def listToJson : List Statement → List Json
  | [] => []
  | statement :: rest => toJson statement :: listToJson rest

end

mutual

/-- Whether two statements are the same. -/
def beq : Statement → Statement → Bool
  | nameSpace n ss, nameSpace n' ss' => n == n' && listBeq ss ss'
  | classDeclaration d n, classDeclaration d' n' => d == d' && n == n'
  | interfaceDeclaration d n, interfaceDeclaration d' n' => d == d' && n == n'
  | typeAlias d n, typeAlias d' n' => d == d' && n == n'
  | other, other => true
  | _, _ => false

/-- Whether two lists of statements are the same. -/
def listBeq : List Statement → List Statement → Bool
  | [], [] => true
  | s :: ss, s' :: ss' => beq s s' && listBeq ss ss'
  | _, _ => false

end

instance : BEq Statement := ⟨beq⟩

end Statement

namespace SourceFile

instance : BEq SourceFile := ⟨fun a b =>
  a.fileName == b.fileName && a.statements == b.statements
    && a.isDeclarationFile == b.isDeclarationFile⟩

/-- The fields of a source file. -/
def fields : Fields SourceFile :=
  SourceFile.mk
    <$> .required "fileName" .text
    <*> .many "statements" Statement.decode
    <*> .defaulted "isDeclarationFile" .flag false

/-- Reads a source file. -/
def decode : Decoder SourceFile := fields.decode

/-- A source file as data. -/
def toJson (file : SourceFile) : Json :=
  .object (Field.always "fileName" (.string file.fileName)
    ++ Field.always "statements" (.array (Statement.listToJson file.statements))
    ++ Field.whenTrue "isDeclarationFile" file.isDeclarationFile)

/-- Reads a list of source files. -/
def readList (text : String) : Except Problem (List SourceFile) :=
  decodeText (Decoder.list decode) text

end SourceFile

end TypeCatalog
