/-
What a text says as JSON, up to its first fault.

A `Draft` is a JSON value as far as the text went.  Where the text breaks off,
the draft has a `broken` leaf or a container with an `ending`, and nothing
stands behind it; so whoever walks a draft in document order meets the fault
where a reader of the text would have met it, after everything that stands
before it.

Reading a value and skipping one are not equally strict: a numeral that is too
large and a string with half of a surrogate pair have no value, but where they
end is clear (`unreadable`); and containers may nest deeper than 127 levels in
what is skipped (`tooDeep`).

* `readFault?` is the first fault that reading all of a draft meets;
* `skipFault?` is the first fault that skipping it meets;
* a draft made from a value has neither (`isFaultless_ofJson`).
-/
import TypeCatalog.Json

namespace TypeCatalog

namespace Json

/-- Why a text is not JSON. -/
inductive Fault where
  | unexpectedEnd
  | malformed
  deriving DecidableEq

/-- A place where a text stops being JSON, as a reader and as a skipper see it. -/
structure Break where
  whenRead : Fault
  whenSkipped : Fault
  deriving DecidableEq

/-- The break that readers and skippers see alike. -/
def Break.same (fault : Fault) : Break := ⟨fault, fault⟩

/-- A JSON value as far as a text went. -/
inductive Draft where
  | null
  | bool (value : Bool)
  | integer (value : Int)
  | real (value : Binary64)
  | string (value : String)
  | array (items : List Draft) (ending : Option Break)
  | object (fields : List (Except Fault String × Draft)) (ending : Option Break)
  | tooDeep (container : Draft)
  | unreadable (fault : Fault)
  | broken (cause : Break)

instance : Inhabited Draft := ⟨.null⟩

namespace Draft

/-- The fault of a key that has no value. -/
def keyFault? : Except Fault String → Option Fault
  | .error fault => some fault
  | .ok _ => none

mutual

/-- The first fault met by reading everything. -/
def readFault? : Draft → Option Fault
  | .null => none
  | .bool _ => none
  | .integer _ => none
  | .real _ => none
  | .string _ => none
  | .array items ending => readFaultItems items <|> ending.map Break.whenRead
  | .object fields ending => readFaultFields fields <|> ending.map Break.whenRead
  | .tooDeep _ => some .malformed
  | .unreadable fault => some fault
  | .broken cause => some cause.whenRead

/-- The first fault met by reading some items. -/
def readFaultItems : List Draft → Option Fault
  | [] => none
  | item :: rest => readFault? item <|> readFaultItems rest

/-- The first fault met by reading some fields. -/
def readFaultFields : List (Except Fault String × Draft) → Option Fault
  | [] => none
  | (key, value) :: rest => keyFault? key <|> readFault? value <|> readFaultFields rest

end

mutual

/-- The first fault met by skipping everything. -/
def skipFault? : Draft → Option Fault
  | .null => none
  | .bool _ => none
  | .integer _ => none
  | .real _ => none
  | .string _ => none
  | .array items ending => skipFaultItems items <|> ending.map Break.whenSkipped
  | .object fields ending => skipFaultFields fields <|> ending.map Break.whenSkipped
  | .tooDeep container => skipFault? container
  | .unreadable _ => none
  | .broken cause => some cause.whenSkipped

/-- The first fault met by skipping some items. -/
def skipFaultItems : List Draft → Option Fault
  | [] => none
  | item :: rest => skipFault? item <|> skipFaultItems rest

/-- The first fault met by skipping some fields. -/
def skipFaultFields : List (Except Fault String × Draft) → Option Fault
  | [] => none
  | (_, value) :: rest => skipFault? value <|> skipFaultFields rest

end

mutual

/-- A value, as a text without faults would say it. -/
def ofJson : Json → Draft
  | .null => .null
  | .bool b => .bool b
  | .integer i => .integer i
  | .real x => .real x
  | .string s => .string s
  | .array items => .array (ofItems items) none
  | .object fields => .object (ofFields fields) none

/-- The drafts of some items. -/
def ofItems : List Json → List Draft
  | [] => []
  | item :: rest => ofJson item :: ofItems rest

/-- The drafts of some fields. -/
def ofFields : List (String × Json) → List (Except Fault String × Draft)
  | [] => []
  | (name, value) :: rest => (.ok name, ofJson value) :: ofFields rest

end

end Draft

end Json

end TypeCatalog
