/-
Reading a text as JSON.

`Document.read` takes a text to its draft.  Values, the items of an array and
the fields of an object are read by three functions that call each other; each
gives what it read and, unless the text broke off, what stands behind it.

A comma promises an item or a field: what stands behind it and is none becomes
a broken item, or ends the object.
-/
import TypeCatalog.Json.Scan

namespace TypeCatalog

namespace Json

/-- The deepest nesting of containers that can be read. -/
def greatestDepth : Nat := 127

/-- Members of a container, where the container broke off if it did, and the
text behind it if reading went on. -/
structure Block (α : Type) where
  members : List α
  ending : Option Break
  rest : Option (List Char)

/-- A container that is closed here. -/
def Block.closed (rest : List Char) : Block α := ⟨[], none, some rest⟩

/-- A container that breaks off here. -/
def Block.stop (cause : Break) : Block α := ⟨[], some cause, none⟩

/-- A container that ends in a broken member. -/
def Block.last (member : α) : Block α := ⟨[member], none, none⟩

/-- A container with one more member in front. -/
def Block.cons (member : α) (block : Block α) : Block α :=
  { block with members := member :: block.members }

/-- Marks a container that is nested too deeply. -/
def atDepth (enclosing : Nat) (container : Draft) : Draft :=
  if enclosing < greatestDepth then container else .tooDeep container

/-- A word with a fixed meaning. -/
def readWord (word : List Char) (meaning : Draft) (text : List Char) :
    Draft × Option (List Char) :=
  match scanWord word text with
  | .ok rest => (meaning, some rest)
  | .error fault => (.broken (.same fault), none)

/-- What a scanner found, as a draft. -/
def ofScan (meaning : α → Draft) : Scan α → Draft × Option (List Char)
  | .found value rest => (meaning value, some rest)
  | .unclear fault rest => (.unreadable fault, some rest)
  | .stopped cause => (.broken cause, none)

mutual

/-- Reads a value; `enclosing` containers are open around it. -/
def readValue : Nat → Nat → List Char → Draft × Option (List Char)
  | 0, _, _ => (.broken (.same .malformed), none)
  | fuel + 1, enclosing, text =>
    match skipBlanks text with
    | [] => (.broken (.same .unexpectedEnd), none)
    | c :: text =>
      if c = 'n' then readWord ['u', 'l', 'l'] .null text
      else if c = 't' then readWord ['r', 'u', 'e'] (.bool true) text
      else if c = 'f' then readWord ['a', 'l', 's', 'e'] (.bool false) text
      else if c = '"' then ofScan .string (scanString text)
      else if c = '-' ∨ c.isDigit then ofScan Draft.ofJson (scanNumber (c :: text))
      else if c = '[' then
        let block := match skipBlanks text with
          | [] => Block.stop (.same .unexpectedEnd)
          | d :: rest =>
            if d = ']' then .closed rest else readItems fuel (enclosing + 1) (d :: rest)
        (atDepth enclosing (.array block.members block.ending), block.rest)
      else if c = '{' then
        let block := match skipBlanks text with
          | [] => Block.stop (.same .unexpectedEnd)
          | d :: rest =>
            if d = '}' then .closed rest else readFields fuel (enclosing + 1) (d :: rest)
        (atDepth enclosing (.object block.members block.ending), block.rest)
      else (.broken (.same .malformed), none)

/-- Reads one item or more, up to the end of the array. -/
def readItems : Nat → Nat → List Char → Block Draft
  | 0, _, _ => .stop (.same .malformed)
  | fuel + 1, enclosing, text =>
    match readValue fuel enclosing text with
    | (item, none) => .last item
    | (item, some text) =>
      .cons item <|
        match skipBlanks text with
        | [] => .stop (.same .unexpectedEnd)
        | c :: text =>
          if c = ',' then readItems fuel enclosing text
          else if c = ']' then .closed text
          else .stop (.same .malformed)

/-- Reads one field or more, up to the end of the object. -/
def readFields : Nat → Nat → List Char → Block (Except Fault String × Draft)
  | 0, _, _ => .stop (.same .malformed)
  | fuel + 1, enclosing, text =>
    match skipBlanks text with
    | [] => .stop (.same .unexpectedEnd)
    | c :: text =>
      if c = '"' then
        match scanString text with
        | .stopped cause => .stop cause
        | .found name text => readField fuel enclosing (.ok name) text
        | .unclear fault text => readField fuel enclosing (.error fault) text
      else .stop (.same .malformed)

/-- Reads the rest of a field behind its key, and the fields that follow. -/
def readField : Nat → Nat → Except Fault String → List Char →
    Block (Except Fault String × Draft)
  | 0, _, _, _ => .stop (.same .malformed)
  | fuel + 1, enclosing, key, text =>
    match skipBlanks text with
    | [] => .last (key, .broken (.same .unexpectedEnd))
    | c :: text =>
      if c = ':' then
        match readValue fuel enclosing text with
        | (value, none) => .last (key, value)
        | (value, some text) =>
          .cons (key, value) <|
            match skipBlanks text with
            | [] => .stop (.same .unexpectedEnd)
            | c :: text =>
              if c = ',' then readFields fuel enclosing text
              else if c = '}' then .closed text
              else .stop (.same .malformed)
      else .last (key, .broken (.same .malformed))

end

/-- A text as one JSON value, and whether anything but blanks stands behind it. -/
structure Document where
  value : Draft
  hasExcess : Bool

/-- Reads a text; every token costs at most three steps. -/
def Document.ofChars (text : List Char) : Document :=
  match readValue (3 * text.length + 3) 0 text with
  | (value, none) => ⟨value, false⟩
  | (value, some rest) => ⟨value, !(skipBlanks rest).isEmpty⟩

/-- Reads a text. -/
def Document.read (text : String) : Document := ofChars text.toList

end Json

end TypeCatalog
