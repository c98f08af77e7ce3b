/-
What a type is catalogued as.

`classify` takes the representative of a type and says whether it is primitive,
has a shape of its own, or cannot be catalogued, and why.  A reference with one
argument to an array-like target is an array.
-/
import TypeCatalog.TypeHost

namespace TypeCatalog

/-- The shapes of types that have a record of their own, with the types they are made of. -/
inductive Shape where
  | classShape
  | interfaceShape
  | typeLiteral
  | function
  | array (element : TypeHandle)
  | reference (target : TypeHandle) (typeArguments : List TypeHandle)
  | union (types : List TypeHandle)
  | intersection (types : List TypeHandle)
  | tuple (elements : List TypeHandle)
  | typeParameter (constraint : Option TypeHandle)
  | expression (instanceType : TypeHandle)
  deriving DecidableEq

/-- Why a type cannot be catalogued. -/
inductive Unsupported where
  | literal (value : Literal)
  | objectLiteral
  | anonymousClassExpression
  | unknown (description : String)
  deriving DecidableEq

namespace Unsupported

/-- What a type that cannot be catalogued is called. -/
def describe : Unsupported → String
  | literal value => "literal type '" ++ value.display ++ "'"
  | objectLiteral => "an object literal type"
  | anonymousClassExpression => "an anonymous class expression"
  | unknown description => "unknown type kind '" ++ description ++ "'"

end Unsupported

/-- What a type is catalogued as. -/
inductive Classified where
  | intrinsic (kind : Intrinsic)
  | shape (handle : TypeHandle) (name : Option String) (shape : Shape)
  | unsupported (reason : Unsupported)
  deriving DecidableEq

/-- The names of types that have none although types of their kind do. -/
def anonymousClass : String := "__class"

@[inherit_doc anonymousClass]
def anonymousInterface : String := "__interface"

@[inherit_doc anonymousClass]
def anonymousFunction : String := "__function"

@[inherit_doc anonymousClass]
def anonymousType : String := "__type"

/-- What a type of a kind is catalogued as; the handle is its representative. -/
def classifyKind (isArrayLike : TypeHandle → Bool) (handle : TypeHandle) : TypeKind → Classified
  | .intrinsic k => .intrinsic k
  | .literal value => .unsupported (.literal value)
  | .objectLiteral => .unsupported .objectLiteral
  | .unknown description => .unsupported (.unknown description)
  | .classExpression none _ => .unsupported .anonymousClassExpression
  | .classExpression (some name) instanceType =>
    .shape handle (some name) (.expression instanceType)
  | .classType name => .shape handle (some (name.getD anonymousClass)) .classShape
  | .interfaceType name => .shape handle (some (name.getD anonymousInterface)) .interfaceShape
  | .function name => .shape handle (some (name.getD anonymousFunction)) .function
  | .typeLiteral name => .shape handle (some (name.getD anonymousType)) .typeLiteral
  | .typeParameter name constraint => .shape handle (some name) (.typeParameter constraint)
  | .reference target [element] =>
    if isArrayLike target then .shape handle none (.array element)
    else .shape handle none (.reference target [element])
  | .reference target typeArguments => .shape handle none (.reference target typeArguments)
  | .union types => .shape handle none (.union types)
  | .intersection types => .shape handle none (.intersection types)
  | .tuple elements => .shape handle none (.tuple elements)

/-- What a type is catalogued as, by its representative. -/
def TypeHost.classify (host : TypeHost) (type : TypeHandle) : Classified :=
  classifyKind host.isArrayLike (host.canonical type) (host.kind (host.canonical type))

end TypeCatalog
