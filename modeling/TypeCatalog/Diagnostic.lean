/-
What the catalogue reports about a program.

The eight kinds of report have a code, a category and a template each.  A
report has a subject, the path of what it is about, and its filled template.
-/
import TypeCatalog.Template
import TypeCatalog.Json.Decoder

namespace TypeCatalog

/-- How serious a diagnostic is. -/
inductive Category where
  | warning
  | error
  | suggestion
  | message
  deriving DecidableEq

namespace Category

/-- The categories by their names. -/
def names : List (String × Category) :=
  [("warning", .warning), ("error", .error), ("suggestion", .suggestion), ("message", .message)]

/-- The name of a category. -/
def name : Category → String
  | .warning => "warning"
  | .error => "error"
  | .suggestion => "suggestion"
  | .message => "message"

end Category

/-- The kinds of report. -/
inductive Notice where
  | literalType
  | objectLiteralType
  | anonymousClassExpression
  | unknownTypeKind
  | duplicateDeclaration
  | shadowedInterface
  | unnamedDeclaration
  | unreflectableDeclaration
  deriving DecidableEq

namespace Notice

/-- The number of a kind of report. -/
def code : Notice → Nat
  | literalType => 9001
  | objectLiteralType => 9002
  | anonymousClassExpression => 9003
  | unknownTypeKind => 9004
  | duplicateDeclaration => 9005
  | shadowedInterface => 9006
  | unnamedDeclaration => 9007
  | unreflectableDeclaration => 9008

/-- Types that are left out are warned about; names that are left out are mentioned. -/
def category : Notice → Category
  | duplicateDeclaration => .message
  | shadowedInterface => .message
  | unnamedDeclaration => .message
  | _ => .warning

/-- The template of a kind of report. -/
def template : Notice → String
  | literalType =>
    "Literal type '\x7b0\x7d' is not supported by reflection; '\x7b1\x7d' is left unserialized."
  | objectLiteralType =>
    "Object literal types are not supported by reflection; '\x7b0\x7d' is left unserialized."
  | anonymousClassExpression =>
    "Anonymous class expressions are not supported by reflection; '\x7b0\x7d' is left unserialized."
  | unknownTypeKind =>
    "Type '\x7b0\x7d' has a kind reflection does not know; '\x7b1\x7d' is left unserialized."
  | duplicateDeclaration =>
    "Duplicate \x7b0\x7d declaration '\x7b1\x7d' in package '\x7b2\x7d'; only the first is registered."
  | shadowedInterface =>
    "Interface '\x7b0\x7d' shares its name with a class in package '\x7b1\x7d'; only the class is addressable by name."
  | unnamedDeclaration =>
    "Unnamed \x7b0\x7d declaration in package '\x7b1\x7d' is not registered by name."
  | unreflectableDeclaration =>
    "Declaration '\x7b0\x7d' resolves to \x7b1\x7d, which reflection cannot emit; it is not registered by name."

/-- The kinds of report in the order of their codes. -/
def all : List Notice :=
  [literalType, objectLiteralType, anonymousClassExpression, unknownTypeKind,
    duplicateDeclaration, shadowedInterface, unnamedDeclaration, unreflectableDeclaration]

end Notice

/-- A report about a program. -/
structure Diagnostic where
  category : Category
  code : Nat
  subject : String
  messageText : String
  deriving DecidableEq

namespace Diagnostic

/-- The report of a kind about a subject. -/
def ofNotice (notice : Notice) (subject : String) (args : List String) : Diagnostic :=
  ⟨notice.category, notice.code, subject, Template.fill notice.template args⟩

/-- Whether it is a warning. -/
def isWarning (d : Diagnostic) : Bool := d.category == .warning

/-- The line shown for a report. -/
def display (d : Diagnostic) : String :=
  d.category.name ++ " TSR" ++ toString d.code ++ ": " ++ d.messageText

/-- A report as data. -/
def toJson (d : Diagnostic) : Json :=
  .object [("category", .string d.category.name), ("code", .nat d.code),
    ("subject", .string d.subject), ("messageText", .string d.messageText)]

open Json in
/-- The fields of a report. -/
def fields : Fields Diagnostic :=
  Diagnostic.mk
    <$> .required "category" (.oneOf Category.names)
    <*> .required "code" .natural32
    <*> .required "subject" .text
    <*> .required "messageText" .text

/-- Reads a report. -/
def read (text : String) : Except Json.Problem Diagnostic := Json.decodeText fields.decode text

end Diagnostic

end TypeCatalog
