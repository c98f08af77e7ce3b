/-
Programs as JSON.

A program is written as its own types, its declarations and its files; the
primitive types are not written.  Members, parameters and signatures leave out
what says nothing, and so do object types; functions, class expressions and
type parameters always write their optional parts.

`Program.read` gives back a program or the first problem of the text, be it one
of JSON, of a type or of a handle that is not there.
-/
import TypeCatalog.Program
import TypeCatalog.Json.Printer

namespace TypeCatalog

open Json

namespace Literal

/-- A literal as data. -/
def toJson : Literal → Json
  | string s => .string s
  | number x => .real x
  | boolean b => .bool b

/-- Reads a literal: a string, a number or a truth value. -/
def decode : Decoder Literal
  | _, .string s => .ok (string s)
  | _, .integer i =>
    match Binary64.ofInt? i with
    | some x => .ok (number x)
    | none => .error .mismatch
  | _, .real x => .ok (number x)
  | _, .bool b => .ok (boolean b)
  | _, draft => do
    draft.hold
    .error (.noAlternative "LiteralValue")

end Literal

namespace MemberKind

/-- The name of a kind of member. -/
def name : MemberKind → String
  | property => "property"
  | method => "method"
  | getAccessor => "getAccessor"
  | setAccessor => "setAccessor"
  | constructor => "constructor"
  | typeParameter => "typeParameter"

/-- The kinds of member by their names. -/
def names : List (String × MemberKind) :=
  [property, method, getAccessor, setAccessor, constructor, typeParameter].map
    fun k => (k.name, k)

end MemberKind

namespace HostMember

/-- A member as data. -/
def toJson (m : HostMember) : Json :=
  .object (Field.always "name" (.string m.name) ++ Field.always "kind" (.string m.kind.name)
    ++ Field.always "type" m.valueType.toJson ++ Field.whenTrue "optional" m.isOptional)

/-- The fields of a member. -/
def fields : Fields HostMember :=
  HostMember.mk
    <$> .required "name" .text
    <*> .defaulted "kind" (.oneOf MemberKind.names) .property
    <*> .required "type" TypeHandle.decode
    <*> .defaulted "optional" .flag false

end HostMember

namespace HostParameter

/-- A parameter as data. -/
def toJson (p : HostParameter) : Json :=
  .object (Field.always "name" (.string p.name) ++ Field.always "type" p.type.toJson
    ++ Field.whenTrue "rest" p.isRest ++ Field.whenTrue "optional" p.isOptional)

/-- The fields of a parameter. -/
def fields : Fields HostParameter :=
  HostParameter.mk
    <$> .required "name" .text
    <*> .required "type" TypeHandle.decode
    <*> .defaulted "rest" .flag false
    <*> .defaulted "optional" .flag false

end HostParameter

namespace HostSignature

/-- A signature as data. -/
def toJson (s : HostSignature) : Json :=
  .object (Field.always "parameters" (.ofList HostParameter.toJson s.parameters)
    ++ Field.always "returns" s.returns.toJson
    ++ Field.whenAny "typeParameters" TypeHandle.toJson s.typeParameters)

/-- The fields of a signature. -/
def fields : Fields HostSignature :=
  HostSignature.mk
    <$> .many "parameters" HostParameter.fields.decode
    <*> .required "returns" TypeHandle.decode
    <*> .many "typeParameters" TypeHandle.decode

end HostSignature

namespace ObjectShape

/-- The fields of a shape that say something. -/
def toFields (shape : ObjectShape) : List (String × Json) :=
  Field.whenSome "name" .string shape.name
    ++ Field.whenAny "typeParameters" TypeHandle.toJson shape.typeParameters
    ++ Field.whenAny "members" HostMember.toJson shape.members
    ++ Field.whenAny "statics" HostMember.toJson shape.statics
    ++ Field.whenAny "call" HostSignature.toJson shape.call
    ++ Field.whenAny "construct" HostSignature.toJson shape.construct
    ++ Field.whenAny "index" HostSignature.toJson shape.index
    ++ Field.whenAny "extends" TypeHandle.toJson shape.bases
    ++ Field.whenAny "implements" TypeHandle.toJson shape.implemented
    ++ Field.whenSome "arrayLike" .bool shape.arrayLike

/-- The fields of a shape. -/
def fields : Fields ObjectShape :=
  ObjectShape.mk
    <$> .maybe "name" .text
    <*> .many "typeParameters" TypeHandle.decode
    <*> .many "members" HostMember.fields.decode
    <*> .many "statics" HostMember.fields.decode
    <*> .many "call" HostSignature.fields.decode
    <*> .many "construct" HostSignature.fields.decode
    <*> .many "index" HostSignature.fields.decode
    <*> .many "extends" TypeHandle.decode
    <*> .many "implements" TypeHandle.decode
    <*> .maybe "arrayLike" .flag

end ObjectShape

namespace ObjectForm

/-- The word for a kind of object type. -/
def name : ObjectForm → String
  | classForm => "class"
  | interfaceForm => "interface"
  | typeLiteral => "typeLiteral"
  | objectLiteral => "objectLiteral"

end ObjectForm

namespace TypeData

/-- The word for the kind of a type. -/
def tag : TypeData → String
  | intrinsic _ => "intrinsic"
  | literal _ => "literal"
  | object form _ => form.name
  | reference _ _ => "reference"
  | union _ => "union"
  | intersection _ => "intersection"
  | tuple _ => "tuple"
  | function _ _ => "function"
  | classExpression _ _ => "classExpression"
  | typeParameter _ _ => "typeParameter"
  | unmodelled _ => "opaque"

/-- The fields of a type beside its tag. -/
def toFields : TypeData → List (String × Json)
  | intrinsic k => [("intrinsic", .string k.name)]
  | literal value => [("value", value.toJson)]
  | object _ shape => shape.toFields
  | reference target typeArguments =>
    [("target", target.toJson), ("typeArguments", .ofList TypeHandle.toJson typeArguments)]
  | union types => [("types", .ofList TypeHandle.toJson types)]
  | intersection types => [("types", .ofList TypeHandle.toJson types)]
  | tuple elements => [("elements", .ofList TypeHandle.toJson elements)]
  | function name signatures =>
    [("name", .ofOption .string name), ("signatures", .ofList HostSignature.toJson signatures)]
  | classExpression name instanceType =>
    [("name", .ofOption .string name), ("instance", instanceType.toJson)]
  | typeParameter name constraint =>
    [("name", .string name), ("constraint", .ofOption TypeHandle.toJson constraint)]
  | unmodelled description => [("description", .string description)]

/-- A type as data. -/
def toJson (data : TypeData) : Json := .object (("kind", .string data.tag) :: data.toFields)

/-- The words by which types are told apart. -/
def kinds : List String :=
  ["intrinsic", "literal", "class", "interface", "typeLiteral", "objectLiteral", "reference",
    "union", "intersection", "tuple", "function", "classExpression", "typeParameter", "opaque"]

/-- Reads a type. -/
def decode : Decoder TypeData := fun source draft => do
  let (kind, contents) ← readTag "kind" kinds source draft
  if kind = "intrinsic" then
    contents.decode (intrinsic <$> .required "intrinsic" Intrinsic.decode)
  else if kind = "literal" then contents.decode (literal <$> .required "value" Literal.decode)
  else if kind = "class" then contents.decode (object .classForm <$> ObjectShape.fields)
  else if kind = "interface" then contents.decode (object .interfaceForm <$> ObjectShape.fields)
  else if kind = "typeLiteral" then contents.decode (object .typeLiteral <$> ObjectShape.fields)
  else if kind = "objectLiteral" then
    contents.decode (object .objectLiteral <$> ObjectShape.fields)
  else if kind = "reference" then
    contents.decode (reference
      <$> .required "target" TypeHandle.decode <*> .many "typeArguments" TypeHandle.decode)
  else if kind = "union" then
    contents.decode (union <$> .required "types" (.list TypeHandle.decode))
  else if kind = "intersection" then
    contents.decode (intersection <$> .required "types" (.list TypeHandle.decode))
  else if kind = "tuple" then
    contents.decode (tuple <$> .required "elements" (.list TypeHandle.decode))
  else if kind = "function" then
    contents.decode (function
      <$> .maybe "name" .text <*> .many "signatures" HostSignature.fields.decode)
  else if kind = "classExpression" then
    contents.decode (classExpression
      <$> .maybe "name" .text <*> .required "instance" TypeHandle.decode)
  else if kind = "typeParameter" then
    contents.decode (typeParameter
      <$> .required "name" .text <*> .maybe "constraint" TypeHandle.decode)
  else contents.decode (unmodelled <$> .required "description" .text)

end TypeData

namespace Program

/-- A program as data. -/
def toJson (p : Program) : Json :=
  .object [("types", .ofList TypeData.toJson p.types),
    ("declarations", .ofList TypeHandle.toJson p.declarations),
    ("files", .ofList SourceFile.toJson p.files)]

/-- The text of a program. -/
def toText (p : Program) : String := p.toJson.pretty

/-- The fields of a program, not yet checked. -/
def fields : Fields (List TypeData × List TypeHandle × List SourceFile) :=
  (fun types declarations files => (types, declarations, files))
    <$> .many "types" TypeData.decode
    <*> .many "declarations" TypeHandle.decode
    <*> .many "files" SourceFile.decode

/-- Reads a program and checks it. -/
def decode : Decoder Program := fun source draft => do
  let (types, declarations, files) ← fields.decode source draft
  match ofParts? types declarations files with
  | .ok p => return p
  | .error problem => .error (.rejected problem.message)

/-- Reads a program from its text. -/
def read (text : String) : Except Problem Program := decodeText decode text

/-- What is said of a text that is no program. -/
def readFailure (problem : Problem) : String := "invalid program: " ++ problem.message

end Program

end TypeCatalog
