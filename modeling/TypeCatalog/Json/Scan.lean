/-
The tokens of JSON: blanks, words, numerals and strings.

Each scanner takes the text from the token on and says what it found and what
stands behind it.  A token that has no value although its end is clear is
`unclear`; a reader refuses it, a skipper goes on behind it.

Numerals follow the grammar of JSON and keep at most as many leading digits as
fit into 64 bits; a whole numeral in the range of 64-bit integers, signed or
unsigned, is an integer, and every other one is a floating-point number.
-/
import TypeCatalog.Json.Draft

namespace TypeCatalog

namespace Json

/-- What a scanner found at the head of a text. -/
inductive Scan (α : Type) where
  | found (value : α) (rest : List Char)
  | unclear (fault : Fault) (rest : List Char)
  | stopped (cause : Break)

/-- The four characters that may stand between tokens. -/
def isBlank (c : Char) : Bool := c == ' ' || c == '\n' || c == '\t' || c == '\r'

/-- The text from its first token on. -/
def skipBlanks (text : List Char) : List Char := text.dropWhile isBlank

/-- Reads the letters of a word. -/
def scanWord : List Char → List Char → Except Fault (List Char)
  | [], text => .ok text
  | _ :: _, [] => .error .unexpectedEnd
  | w :: word, c :: text => if c = w then scanWord word text else .error .malformed

/-! ### Numerals -/

/-- The largest number that a significand may reach. -/
def greatestSignificand : Nat := Nat.pow 2 64 - 1

/-- The value of a decimal digit. -/
def digitValue (c : Char) : Nat := c.toNat - '0'.toNat

/-- The parts of a numeral. -/
structure Numeral where
  negative : Bool
  whole : List Char
  /-- The digits behind the point, if there is one. -/
  fraction : Option (List Char)
  /-- The exponent, if there is one. -/
  exponent : Option Int

/-- Appends whole digits to a significand while they fit; counts the others. -/
def absorbWhole : Nat × Nat → List Char → Nat × Nat
  | state, [] => state
  | (significand, dropped), c :: rest =>
    let next := significand * 10 + digitValue c
    if dropped = 0 ∧ next ≤ greatestSignificand then absorbWhole (next, 0) rest
    else absorbWhole (significand, dropped + 1) rest

/-- Appends digits behind the point while they fit, and counts them; the first
one that does not fit and all behind it are left out. -/
def absorbFraction : Nat × Nat → List Char → Nat × Nat
  | state, [] => state
  | (significand, taken), c :: rest =>
    let next := significand * 10 + digitValue c
    if next ≤ greatestSignificand then absorbFraction (next, taken + 1) rest
    else (significand, taken)

/-- The value of a numeral, unless it is too large. -/
def Numeral.value? (n : Numeral) : Option Json :=
  let (significand, dropped) := absorbWhole (0, 0) n.whole
  match n.fraction, n.exponent with
  | none, none =>
    if dropped ≠ 0 then
      (Binary64.ofDecimal? n.negative significand dropped).map Json.real
    else if n.negative = false then some (.integer significand)
    -- a negative zero, and what is below all 64-bit integers, is a floating-point number
    else if 0 < significand ∧ significand ≤ Nat.pow 2 63 then some (.integer (-significand))
    else (Binary64.ofDecimal? true significand 0).map Json.real
  | fraction, exponent =>
    let (significand, taken) := absorbFraction (significand, 0) (fraction.getD [])
    (Binary64.ofDecimal? n.negative significand
      ((dropped : Int) - (taken : Int) + exponent.getD 0)).map Json.real

/-- The digits at the head of a text, and what follows them. -/
def spanDigits (text : List Char) : List Char × List Char := text.span Char.isDigit

/-- The digits before the point: no zero stands before another digit. -/
def scanWhole : List Char → Except Fault (List Char × List Char)
  | [] => .error .unexpectedEnd
  | c :: text =>
    if c = '0' then
      match text with
      | d :: _ => if d.isDigit then .error .malformed else .ok (['0'], text)
      | [] => .ok (['0'], [])
    else if c.isDigit then .ok (c :: (spanDigits text).1, (spanDigits text).2)
    else .error .malformed

/-- At least one digit. -/
def scanSomeDigits (text : List Char) : Except Fault (List Char × List Char) :=
  match spanDigits text with
  | ([], []) => .error .unexpectedEnd
  | ([], _ :: _) => .error .malformed
  | (digits, rest) => .ok (digits, rest)

/-- The digits behind the point, if a point comes next. -/
def scanFraction : List Char → Except Fault (Option (List Char) × List Char)
  | '.' :: text => (scanSomeDigits text).map fun (digits, rest) => (some digits, rest)
  | text => .ok (none, text)

/-- The exponent, if one comes next. -/
def scanExponent : List Char → Except Fault (Option Int × List Char)
  | [] => .ok (none, [])
  | c :: text =>
    if c = 'e' ∨ c = 'E' then
      let (negative, text) := match text with
        | '+' :: text => (false, text)
        | '-' :: text => (true, text)
        | text => (false, text)
      (scanSomeDigits text).map fun (digits, rest) =>
        let size : Int := (digits.foldl (fun n d => n * 10 + digitValue d) 0 : Nat)
        (some (if negative then -size else size), rest)
    else .ok (none, c :: text)

/-- The parts of the numeral at the head of a text. -/
def scanNumeral (text : List Char) : Except Fault (Numeral × List Char) := do
  let (negative, text) := match text with
    | '-' :: text => (true, text)
    | text => (false, text)
  let (whole, text) ← scanWhole text
  let (fraction, text) ← scanFraction text
  let (exponent, text) ← scanExponent text
  return (⟨negative, whole, fraction, exponent⟩, text)

/-- The number at the head of a text. -/
def scanNumber (text : List Char) : Scan Json :=
  match scanNumeral text with
  | .error fault => .stopped ⟨fault, .malformed⟩
  | .ok (numeral, rest) =>
    match numeral.value? with
    | some value => .found value rest
    | none => .unclear .malformed rest

/-! ### Strings -/

/-- The value of a hexadecimal digit, in small or capital letters. -/
def hexValue? (c : Char) : Option Nat :=
  if c.isDigit then some (c.toNat - '0'.toNat)
  else if 'a' ≤ c ∧ c ≤ 'f' then some (c.toNat - 'a'.toNat + 10)
  else if 'A' ≤ c ∧ c ≤ 'F' then some (c.toNat - 'A'.toNat + 10)
  else none

/-- The number of bytes that a text takes. -/
def byteCount (text : List Char) : Nat := text.foldl (fun n c => n + c.utf8Size) 0

/-- Four hexadecimal digits; with fewer than four bytes left the text ends too early. -/
def scanFourHex (text : List Char) : Except Fault (Nat × List Char) :=
  match text with
  | a :: b :: c :: d :: rest =>
    match hexValue? a, hexValue? b, hexValue? c, hexValue? d with
    | some a, some b, some c, some d => .ok (((a * 16 + b) * 16 + c) * 16 + d, rest)
    | _, _, _, _ => .error .malformed
  | short => if byteCount short < 4 then .error .unexpectedEnd else .error .malformed

/-- Whether a number is the first half of a surrogate pair. -/
def isHighHalf (n : Nat) : Bool := decide (0xD800 ≤ n) && decide (n ≤ 0xDBFF)

/-- Whether a number is the second half of a surrogate pair. -/
def isLowHalf (n : Nat) : Bool := decide (0xDC00 ≤ n) && decide (n ≤ 0xDFFF)

/-- The second half of a surrogate pair, as an escape of its own. -/
def scanLowHalf : List Char → Except Fault (Nat × List Char)
  | [] => .error .unexpectedEnd
  | '\\' :: [] => .error .unexpectedEnd
  | '\\' :: 'u' :: text => do
    let (low, rest) ← scanFourHex text
    if isLowHalf low then return (low, rest) else throw .malformed
  | _ => .error .malformed

/-- The character written by four hexadecimal digits, or by a pair of such escapes. -/
def scanCodePoint (text : List Char) : Except Fault (Char × List Char) := do
  let (n, rest) ← scanFourHex text
  if isLowHalf n then throw .malformed
  else if isHighHalf n then
    let (low, rest) ← scanLowHalf rest
    return (Char.ofNat (0x10000 + (n - 0xD800) * 0x400 + (low - 0xDC00)), rest)
  else return (Char.ofNat n, rest)

/-- The character that a letter behind a backslash stands for. -/
def simpleEscape? (c : Char) : Option Char :=
  if c = '"' then some '"'
  else if c = '\\' then some '\\'
  else if c = '/' then some '/'
  else if c = 'b' then some (Char.ofNat 8)
  else if c = 'f' then some (Char.ofNat 12)
  else if c = 'n' then some '\n'
  else if c = 'r' then some '\r'
  else if c = 't' then some '\t'
  else none

/-- The escape behind a backslash. -/
def scanEscape : List Char → Except Fault (Char × List Char)
  | [] => .error .unexpectedEnd
  | c :: text =>
    if c = 'u' then scanCodePoint text
    else match simpleEscape? c with
      | some d => .ok (d, text)
      | none => .error .malformed

/-- The characters of a string up to its closing mark, with the bound as fuel. -/
def scanChars : Nat → List Char → Except Fault (List Char × List Char)
  | 0, _ => .error .unexpectedEnd
  | _ + 1, [] => .error .unexpectedEnd
  | bound + 1, c :: text =>
    if c = '"' then .ok ([], text)
    else if c = '\\' then do
      let (d, rest) ← scanEscape text
      let (chars, rest) ← scanChars bound rest
      return (d :: chars, rest)
    else if c.toNat < 32 then .error .malformed
    else do
      let (chars, rest) ← scanChars bound text
      return (c :: chars, rest)

/-- Where the escape behind a backslash ends; four digits need not be a character. -/
def skipEscape : List Char → Except Fault (List Char)
  | [] => .error .unexpectedEnd
  | c :: text =>
    if c = 'u' then (scanFourHex text).map Prod.snd
    else match simpleEscape? c with
      | some _ => .ok text
      | none => .error .malformed

/-- Where a string ends, with the bound as fuel. -/
def skipChars : Nat → List Char → Except Fault (List Char)
  | 0, _ => .error .unexpectedEnd
  | _ + 1, [] => .error .unexpectedEnd
  | bound + 1, c :: text =>
    if c = '"' then .ok text
    else if c = '\\' then skipEscape text >>= skipChars bound
    else if c.toNat < 32 then .error .malformed
    else skipChars bound text

/-- The string behind an opening mark. -/
def scanString (text : List Char) : Scan String :=
  match scanChars (text.length + 1) text with
  | .ok (chars, rest) => .found (String.ofList chars) rest
  | .error fault =>
    -- a string that is no text may still have an end, behind which a skipper goes on
    match skipChars (text.length + 1) text with
    | .ok rest => .unclear fault rest
    | .error skipped => .stopped ⟨fault, skipped⟩

end Json

end TypeCatalog
