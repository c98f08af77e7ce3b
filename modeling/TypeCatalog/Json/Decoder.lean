/-
From a draft to a value of the domain.

A `Decoder` reads a draft in document order and gives the value it stands for
or the first `Problem` it meets.  Drafts are read in one of two ways.  A
`streamed` draft is met for the first time, and may hold faults; a `held` one
has been read as plain JSON before its meaning was known, and has none.  The
two differ only in how they name a container of the wrong size or kind.

Records are described by `Fields`: which names there are, in order, how the
value of each is read, and what stands for one that is absent.  A description
reads an object by names and an array by position:

* every present field is read first, in document order; a name met twice is a
  problem where it is met again;
* only then, absent fields are looked at, in the order of the description.

Objects that say by a tag what they are go through `readTag`, which gives the
tag and the held contents.
-/
import TypeCatalog.Json.Reader
import TypeCatalog.OrderedMap

namespace TypeCatalog

namespace Json

/-- Why a text does not stand for a value. -/
inductive Problem where
  | fault (fault : Fault)
  | mismatch
  | missingField (name : String)
  | duplicateField (name : String)
  | unknownField (name : String) (known : List String)
  | unknownVariant (name : String) (known : List String)
  | noAlternative (name : String)
  | rejected (reason : String)
  deriving DecidableEq

/-- A name between the marks that messages put around names. -/
def ticked (name : String) : String := "`" ++ name ++ "`"

/-- The names that would have been accepted. -/
def expectation : List String → String
  | [] => "nothing"
  | [a] => ticked a
  | [a, b] => ticked a ++ " or " ++ ticked b
  | names => "one of " ++ String.intercalate ", " (names.map ticked)

/-- The text of a problem; faults of the text and wrong kinds of value are named by class. -/
def Problem.message : Problem → String
  | .fault .unexpectedEnd => "<eof>"
  | .fault .malformed => "<syntax>"
  | .mismatch => "<type>"
  | .missingField name => "missing field " ++ ticked name
  | .duplicateField name => "duplicate field " ++ ticked name
  | .unknownField name known =>
    "unknown field " ++ ticked name ++ ", expected " ++ expectation known
  | .unknownVariant name known =>
    "unknown variant " ++ ticked name ++ ", expected " ++ expectation known
  | .noAlternative name => "data did not match any variant of untagged enum " ++ name
  | .rejected reason => reason

/-- How a draft is met. -/
inductive Source where
  | streamed
  | held
  deriving DecidableEq

/-- A way to read a value from a draft. -/
abbrev Decoder (α : Type) := Source → Draft → Except Problem α

/-- The problem of a text that has a fault here, if it has one. -/
def noFault : Option Fault → Except Problem Unit
  | none => .ok ()
  | some fault => .error (.fault fault)

/-- Goes on behind a container that is closed. -/
def noBreak : Option Break → Except Problem Unit
  | none => .ok ()
  | some cause => .error (.fault cause.whenRead)

/-- The problem with a draft of the wrong kind: its own fault, or else its kind. -/
def Draft.refusal : Draft → Problem
  | .unreadable fault => .fault fault
  | .broken cause => .fault cause.whenRead
  | _ => .mismatch

/-- Reads a draft as plain JSON, to be understood later. -/
def Draft.hold (draft : Draft) : Except Problem Unit := noFault draft.readFault?

namespace Decoder

/-- A natural number below `2 ^ 32`. -/
def natural32 : Decoder Nat
  | _, .integer i => if 0 ≤ i ∧ i.toNat < Nat.pow 2 32 then .ok i.toNat else .error .mismatch
  | _, draft => .error draft.refusal

/-- A text. -/
def text : Decoder String
  | _, .string s => .ok s
  | _, draft => .error draft.refusal

/-- A truth value. -/
def flag : Decoder Bool
  | _, .bool b => .ok b
  | _, draft => .error draft.refusal

/-- A value that may be `null`. -/
def optional (decoder : Decoder α) : Decoder (Option α)
  | _, .null => .ok none
  | source, draft => (decoder source draft).map some

/-- A list of values. -/
def list (decoder : Decoder α) : Decoder (List α)
  | source, .array items ending => do
    let values ← items.mapM (decoder source)
    noBreak ending
    return values
  | _, .tooDeep (.array _ _) => .error (.fault .malformed)
  | _, draft => .error draft.refusal

/-- A decoded value under another name for its kind. -/
def map (f : α → β) (decoder : Decoder α) : Decoder β := fun source draft =>
  (decoder source draft).map f

/-- Reads the entries of a map. -/
def entries (decoder : Decoder α) (source : Source) :
    List (Except Fault String × Draft) → Except Problem (List (String × α))
  | [] => .ok []
  | (.error fault, _) :: _ => .error (.fault fault)
  | (.ok key, draft) :: rest => do
    let value ← decoder source draft
    let others ← entries decoder source rest
    return (key, value) :: others

/-- An object as a map; of equal keys the last value stays at the first place. -/
def dictionary (decoder : Decoder α) : Decoder (OrderedMap String α)
  | source, .object fields ending => do
    let pairs ← entries decoder source fields
    noBreak ending
    return OrderedMap.ofList pairs
  | _, .tooDeep (.object _ _) => .error (.fault .malformed)
  | _, draft => .error draft.refusal

/-- The value that a name stands for. -/
def choose (choices : List (String × α)) (name : String) : Except Problem α :=
  match choices.find? (·.1 == name) with
  | some (_, a) => .ok a
  | none => .error (.unknownVariant name (choices.map Prod.fst))

/-- One of several names, or an object with one of them as its only key and `null` under it. -/
def oneOf (choices : List (String × α)) : Decoder α
  | _, .string name => choose choices name
  | .held, .object [(.ok name, .null)] none => choose choices name
  | .held, .object [(.ok name, _)] none => do
    let _ ← choose choices name
    .error .mismatch
  | .held, _ => .error .mismatch
  | .streamed, .object [] ending => do
    noBreak ending
    .error (.fault .malformed)
  | .streamed, .object ((.error fault, _) :: _) _ => .error (.fault fault)
  | .streamed, .object ((.ok name, draft) :: rest) ending => do
    -- the key is judged before what stands under it, and that before what follows
    let a ← choose choices name
    match draft with
    | .null =>
      if rest.isEmpty then do
        noBreak ending
        return a
      else .error (.fault .malformed)
    | draft => .error draft.refusal
  | .streamed, .broken cause => .error (.fault cause.whenRead)
  | .streamed, .unreadable fault => .error (.fault fault)
  | .streamed, _ => .error (.fault .malformed)

end Decoder

/-! ### Records -/

/-- How to read the fields of a record. -/
structure Fields (α : Type) where
  names : List String
  /-- The values that have been read. -/
  State : Type
  /-- No value has been read. -/
  start : State
  /-- Reads the value of a known name. -/
  take : Source → String → Draft → State → Except Problem State
  /-- Puts the record together from the values that have been read. -/
  finish : State → Except Problem α
  /-- Puts the record together from the items at the head of a list. -/
  ordered : Source → List Draft → Option Break → Except Problem (α × List Draft)

namespace Fields

/-- A field; `absent` stands for it when it is not there. -/
def field (name : String) (decoder : Decoder α) (absent : Option α) : Fields α where
  names := [name]
  State := Option α
  start := none
  take source _ draft _ := (decoder source draft).map some
  finish value :=
    match value <|> absent with
    | some a => .ok a
    | none => .error (.missingField name)
  ordered source items ending :=
    match items with
    | draft :: rest => (decoder source draft).map fun a => (a, rest)
    | [] => do
      noBreak ending
      match absent with
      | some a => .ok (a, [])
      | none => .error .mismatch

/-- A field that has to be there. -/
def required (name : String) (decoder : Decoder α) : Fields α := field name decoder none

/-- A field with a value for its absence. -/
def defaulted (name : String) (decoder : Decoder α) (absent : α) : Fields α :=
  field name decoder (some absent)

/-- A field that may be absent or `null`. -/
def maybe (name : String) (decoder : Decoder α) : Fields (Option α) :=
  defaulted name decoder.optional none

/-- A list that is empty when it is absent. -/
def many (name : String) (decoder : Decoder α) : Fields (List α) :=
  defaulted name decoder.list []

/-- Changes what the fields are put together to. -/
def map (f : α → β) (fields : Fields α) : Fields β where
  names := fields.names
  State := fields.State
  start := fields.start
  take := fields.take
  finish state := (fields.finish state).map f
  ordered source items ending :=
    (fields.ordered source items ending).map fun (a, rest) => (f a, rest)

/-- The fields of one description and then those of another. -/
def andThen (first : Fields (α → β)) (second : Fields α) : Fields β where
  names := first.names ++ second.names
  State := first.State × second.State
  start := (first.start, second.start)
  take source name draft state :=
    if name ∈ first.names then
      (first.take source name draft state.1).map fun taken => (taken, state.2)
    else (second.take source name draft state.2).map fun taken => (state.1, taken)
  finish state := do
    let f ← first.finish state.1
    let a ← second.finish state.2
    return f a
  ordered source items ending := do
    let (f, items) ← first.ordered source items ending
    let (a, items) ← second.ordered source items ending
    return (f a, items)

instance : Functor Fields := ⟨map, fun a => map fun _ => a⟩

instance : Seq Fields := ⟨fun first second => andThen first (second ())⟩

/-- Reads the values of known names in document order; `refusing` unknown names
or skipping their values. -/
def takeNamed (description : Fields α) (refusing : Bool) (source : Source) :
    List String → description.State → List (Except Fault String × Draft) →
    Except Problem description.State
  | _, state, [] => .ok state
  | _, _, (.error fault, _) :: _ => .error (.fault fault)
  | seen, state, (.ok name, draft) :: rest => do
    if name ∈ description.names then
      if name ∈ seen then .error (.duplicateField name)
      else
        let state ← description.take source name draft state
        takeNamed description refusing source (name :: seen) state rest
    else if refusing then .error (.unknownField name description.names)
    else
      noFault draft.skipFault?
      takeNamed description refusing source seen state rest

/-- Reads an object. -/
def readNamed (description : Fields α) (refusing : Bool) (source : Source)
    (fields : List (Except Fault String × Draft)) (ending : Option Break) :
    Except Problem α := do
  let state ← description.takeNamed refusing source [] description.start fields
  -- absent fields are looked at only where the object is closed
  noBreak ending
  description.finish state

/-- Reads an array, item after item; none may be left over. -/
def readOrdered (description : Fields α) (source : Source) (items : List Draft)
    (ending : Option Break) : Except Problem α := do
  let (a, left) ← description.ordered source items ending
  if left.isEmpty then
    noBreak ending
    return a
  else
    match source with
    | .streamed => .error (.fault .malformed)
    | .held => .error .mismatch

/-- Reads a record, from an object or from an array. -/
def decodeWith (description : Fields α) (refusing : Bool) : Decoder α
  | source, .object fields ending => description.readNamed refusing source fields ending
  | source, .array items ending => description.readOrdered source items ending
  | _, .tooDeep _ => .error (.fault .malformed)
  | _, draft => .error draft.refusal

/-- Reads a record; unknown names are skipped. -/
def decode (description : Fields α) : Decoder α := description.decodeWith false

/-- Reads a record; unknown names are refused. -/
def decodeStrictly (description : Fields α) : Decoder α := description.decodeWith true

end Fields

/-! ### Tagged objects -/

/-- What a tagged object holds beside its tag. -/
inductive Contents where
  | named (fields : List (Except Fault String × Draft))
  | ordered (items : List Draft)

/-- Reads the contents as a record. -/
def Contents.decode (contents : Contents) (description : Fields α) : Except Problem α :=
  match contents with
  | .named fields => description.readNamed false .held fields none
  | .ordered items => description.readOrdered .held items none

/-- Reads the contents of a thing that has none. -/
def Contents.decodeNothing (contents : Contents) (a : α) : Except Problem α :=
  match contents with
  | .named _ => .ok a
  | .ordered [] => .ok a
  | .ordered (_ :: _) => .error .mismatch

/-- The name in a tag; in held contents its position among the names does as well. -/
def tagName (names : List String) : Decoder String
  | _, .string name => if name ∈ names then .ok name else .error (.unknownVariant name names)
  | .held, .integer i =>
    if 0 ≤ i then
      match names[i.toNat]? with
      | some name => .ok name
      | none => .error .mismatch
    else .error .mismatch
  | _, draft => .error draft.refusal

/-- Walks an object in document order, reading its tag and holding the rest. -/
def readTagField (tag : String) (names : List String) (source : Source) :
    Option String → List (Except Fault String × Draft) →
    Except Problem (Option String × List (Except Fault String × Draft))
  | found, [] => .ok (found, [])
  | _, (.error fault, _) :: _ => .error (.fault fault)
  | found, (.ok key, draft) :: rest => do
    if key = tag then
      if found.isSome then .error (.duplicateField tag)
      else
        let name ← tagName names source draft
        readTagField tag names source (some name) rest
    else
      draft.hold
      let (found, others) ← readTagField tag names source found rest
      return (found, (.ok key, draft) :: others)

/-- Reads the tag of an object given by its fields. -/
def readTagNamed (tag : String) (names : List String) (source : Source)
    (fields : List (Except Fault String × Draft)) (ending : Option Break) :
    Except Problem (String × Contents) := do
  let (found, others) ← readTagField tag names source none fields
  noBreak ending
  match found with
  | none => .error (.missingField tag)
  | some name => return (name, .named others)

/-- Reads the tag of an object; in an array the tag is the first item. -/
def readTag (tag : String) (names : List String) : Decoder (String × Contents)
  | source, .object fields ending => readTagNamed tag names source fields ending
  | source, .array items ending => do
    match items with
    | [] =>
      noBreak ending
      .error (.missingField tag)
    | first :: rest =>
      let name ← tagName names source first
      rest.forM Draft.hold
      noBreak ending
      return (name, .ordered rest)
  | _, .tooDeep _ => .error (.fault .malformed)
  | _, draft => .error draft.refusal

/-- Reads a text that holds one value and nothing else. -/
def decodeText (decoder : Decoder α) (text : String) : Except Problem α := do
  let document := Document.read text
  let value ← decoder .streamed document.value
  if document.hasExcess then .error (.fault .malformed) else return value

end Json

end TypeCatalog
