/-
Records of types as JSON.

A record is one flat object: its slot, its name if it has one, its kind, and
the fields of the kind.  Lists and flags that say nothing are left out, except
the lists that make up a kind.

Reading a record takes its slot and its name where they stand and holds all
other fields until the kind is known.
-/
import TypeCatalog.Node
import TypeCatalog.SourceFile

namespace TypeCatalog

open Json

namespace SlotId

/-- A slot as data. -/
def toJson (s : SlotId) : Json := .nat s.index

/-- Reads a slot. -/
def decode : Decoder SlotId := Decoder.natural32.map SlotId.mk

end SlotId

namespace TypeRef

/-- An edge as data. -/
def toJson : TypeRef → Json
  | slot s => .object [("slot", s.toJson)]
  | intrinsic k => .object [("intrinsic", .string k.name)]

/-- The ways in which an edge can be given. -/
def kinds : List String := ["intrinsic", "slot"]

/-- Reads an edge: an object with one of two keys. -/
def decode : Decoder TypeRef
  | source, .object [(.ok key, draft)] none =>
    if key = "intrinsic" then (Intrinsic.decode source draft).map intrinsic
    else if key = "slot" then (SlotId.decode source draft).map slot
    else .error (.unknownVariant key kinds)
  | _, .string key => .error (if key ∈ kinds then .mismatch else .unknownVariant key kinds)
  | _, draft => .error draft.refusal

end TypeRef

namespace Member

/-- A member as data. -/
def toJson (m : Member) : Json :=
  .object (Field.always "name" (.string m.name) ++ Field.always "type" m.type.toJson
    ++ Field.whenTrue "optional" m.isOptional)

/-- The fields of a member. -/
def fields : Fields Member :=
  Member.mk
    <$> .required "name" .text
    <*> .required "type" TypeRef.decode
    <*> .defaulted "optional" .flag false

end Member

namespace Parameter

/-- A parameter as data. -/
def toJson (p : Parameter) : Json :=
  .object [("name", .string p.name), ("type", p.type.toJson)]

/-- The fields of a parameter. -/
def fields : Fields Parameter :=
  Parameter.mk <$> .required "name" .text <*> .required "type" TypeRef.decode

end Parameter

namespace Signature

/-- A signature as data. -/
def toJson (s : Signature) : Json :=
  .object (Field.always "length" (.nat s.length)
    ++ Field.always "parameters" (.ofList Parameter.toJson s.parameters)
    ++ Field.whenTrue "rest" s.hasRest
    ++ Field.always "returns" s.returns.toJson
    ++ Field.whenAny "typeParameters" TypeRef.toJson s.typeParameters)

/-- The fields of a signature. -/
def fields : Fields Signature :=
  Signature.mk
    <$> .required "length" .natural32
    <*> .required "parameters" (.list Parameter.fields.decode)
    <*> .defaulted "rest" .flag false
    <*> .required "returns" TypeRef.decode
    <*> .many "typeParameters" TypeRef.decode

end Signature

namespace ObjectBody

/-- The fields of a body that say something. -/
def toFields (b : ObjectBody) : List (String × Json) :=
  Field.whenAny "typeParameters" TypeRef.toJson b.typeParameters
    ++ Field.whenAny "members" Member.toJson b.members
    ++ Field.whenAny "construct" Signature.toJson b.construct
    ++ Field.whenAny "call" Signature.toJson b.call
    ++ Field.whenAny "index" Signature.toJson b.index

/-- A body as data. -/
def toJson (b : ObjectBody) : Json := .object b.toFields

/-- The fields of a body. -/
def fields : Fields ObjectBody :=
  ObjectBody.mk
    <$> .many "typeParameters" TypeRef.decode
    <*> .many "members" Member.fields.decode
    <*> .many "construct" Signature.fields.decode
    <*> .many "call" Signature.fields.decode
    <*> .many "index" Signature.fields.decode

end ObjectBody

namespace NodeKind

/-- The fields of a kind beside its tag. -/
def toFields : NodeKind → List (String × Json)
  | classNode body statics base implemented =>
    body.toFields ++ Field.whenAny "statics" Member.toJson statics
      ++ Field.whenSome "extends" TypeRef.toJson base
      ++ Field.whenAny "implements" TypeRef.toJson implemented
  | interfaceNode body bases =>
    body.toFields ++ Field.whenAny "extends" TypeRef.toJson bases
  | array elementType => [("elementType", elementType.toJson)]
  | reference target typeArguments =>
    [("type", target.toJson), ("typeArguments", .ofList TypeRef.toJson typeArguments)]
  | union types => [("types", .ofList TypeRef.toJson types)]
  | intersection types => [("types", .ofList TypeRef.toJson types)]
  | tuple elements => [("elements", .ofList TypeRef.toJson elements)]
  | function signatures => [("signatures", .ofList Signature.toJson signatures)]
  | typeLiteral body => body.toFields
  | typeParameter constraint => Field.whenSome "constraint" TypeRef.toJson constraint
  | expression target => [("type", target.toJson)]

/-- The words by which records are told apart. -/
def kinds : List String :=
  ["class", "interface", "array", "reference", "union", "intersection", "tuple", "function",
    "typeLiteral", "typeParameter", "expression"]

/-- The fields of a class beside its body. -/
def classFields : Fields (List Member × Option TypeRef × List TypeRef) :=
  (fun statics base implemented => (statics, base, implemented))
    <$> .many "statics" Member.fields.decode
    <*> .maybe "extends" TypeRef.decode
    <*> .many "implements" TypeRef.decode

/-- The fields of an interface beside its body. -/
def interfaceFields : Fields (List TypeRef) := .many "extends" TypeRef.decode

/-- Reads the fields of a kind; the fields of a body come after the others. -/
def decode (kind : String) (held : List (Except Fault String × Draft)) :
    Except Problem NodeKind :=
  let read {α : Type} (description : Fields α) : Except Problem α :=
    description.readNamed false .held held none
  if kind = "class" then do
    let (statics, base, implemented) ← read classFields
    let body ← read ObjectBody.fields
    return classNode body statics base implemented
  else if kind = "interface" then do
    let bases ← read interfaceFields
    let body ← read ObjectBody.fields
    return interfaceNode body bases
  else if kind = "array" then read (array <$> .required "elementType" TypeRef.decode)
  else if kind = "reference" then
    read (reference
      <$> .required "type" TypeRef.decode
      <*> .required "typeArguments" (.list TypeRef.decode))
  else if kind = "union" then read (union <$> .required "types" (.list TypeRef.decode))
  else if kind = "intersection" then
    read (intersection <$> .required "types" (.list TypeRef.decode))
  else if kind = "tuple" then read (tuple <$> .required "elements" (.list TypeRef.decode))
  else if kind = "function" then
    read (function <$> .required "signatures" (.list Signature.fields.decode))
  else if kind = "typeLiteral" then return typeLiteral (← read ObjectBody.fields)
  else if kind = "typeParameter" then
    read (typeParameter <$> .maybe "constraint" TypeRef.decode)
  else read (expression <$> .required "type" TypeRef.decode)

end NodeKind

namespace TypeNode

/-- A record as data. -/
def toJson (n : TypeNode) : Json :=
  .object (("slot", n.slot.toJson) :: Field.whenSome "name" .string n.name
    ++ ("kind", .string n.kind.tag) :: n.kind.toFields)

/-- The slot and the name of a record, as far as they have been met. -/
structure Head where
  slot : Option SlotId
  name : Option (Option String)

/-- Walks a record in document order: reads its slot and its name, holds the rest. -/
def readHead (source : Source) :
    Head → List (Except Fault String × Draft) →
    Except Problem (Head × List (Except Fault String × Draft))
  | head, [] => .ok (head, [])
  | _, (.error fault, _) :: _ => .error (.fault fault)
  | head, (.ok key, draft) :: rest => do
    if key = "slot" then
      if head.slot.isSome then .error (.duplicateField "slot")
      else
        let slot ← SlotId.decode source draft
        readHead source { head with slot := some slot } rest
    else if key = "name" then
      if head.name.isSome then .error (.duplicateField "name")
      else
        let name ← Decoder.text.optional source draft
        readHead source { head with name := some name } rest
    else
      draft.hold
      let (head, held) ← readHead source head rest
      return (head, (.ok key, draft) :: held)

/-- Reads a record. -/
def decode : Decoder TypeNode
  | source, .object fields ending => do
    let (head, held) ← readHead source ⟨none, none⟩ fields
    noBreak ending
    match head.slot with
    | none => .error (.missingField "slot")
    | some slot =>
      let (kind, contents) ← readTagNamed "kind" NodeKind.kinds .held held none
      match contents with
      | .named held => return ⟨slot, head.name.getD none, ← NodeKind.decode kind held⟩
      | .ordered _ => .error .mismatch
  | _, .tooDeep (.object _ _) => .error (.fault .malformed)
  | _, draft => .error draft.refusal

end TypeNode

end TypeCatalog
