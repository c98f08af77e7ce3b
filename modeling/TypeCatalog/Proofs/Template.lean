/-
Messages are filled piece by piece.

A message in which every opening brace belongs to a numbered place is made of pieces
(`Template.Piece`).  The scan passes over text without braces (`Template.fillFrom_append`)
and comes out behind a place, whether there is an argument for it or not
(`Template.fillFrom_place`), so filling the message is filling each of its pieces by itself
(`Template.fill_pieces`): what an argument brings in is never looked at.
-/
import TypeCatalog.Template

namespace TypeCatalog

namespace Template

variable {args : List (List Char)} {text rest digits : List Char}

/-! ### Numbers of places -/

theorem decimalValue_eq (digits : List Char) :
    decimalValue digits = Nat.ofDigitChars 10 digits 0 := by
  simp only [decimalValue, Nat.ofDigitChars, Nat.mul_comm]

/-- A run of digits is its own number; the sign that may stand before a number is no digit. -/
theorem index?_of_digits (hne : digits ≠ []) (hd : ∀ c ∈ digits, c.isDigit = true) :
    index? digits = some (Nat.ofDigitChars 10 digits 0) := by
  rw [← decimalValue_eq]
  cases digits with
  | nil => exact absurd rfl hne
  | cons c digits =>
    have hplus : c ≠ '+' := by
      rintro rfl
      exact absurd (hd '+' List.mem_cons_self) (by decide)
    rw [index?]
    · simp only [List.cons_ne_nil, ne_eq, not_false_eq_true, List.all_eq_true, true_and]
      exact if_pos hd
    · rintro rest ⟨⟩
      exact hplus rfl

theorem notMem_of_digits {c : Char} (hd : ∀ c ∈ digits, c.isDigit = true)
    (hc : c.isDigit = false) : c ∉ digits := by
  intro hmem
  rw [hd c hmem] at hc
  cases hc

/-- The place of a run of digits ends at the brace behind them. -/
theorem place?_of_digits (hne : digits ≠ []) (hd : ∀ c ∈ digits, c.isDigit = true)
    (rest : List Char) : place? args (digits ++ '\x7d' :: rest) =
      (args[Nat.ofDigitChars 10 digits 0]?).map fun arg => (arg, digits.length + 1) := by
  -- no digit is a brace, so the first closing brace is the one behind the digits
  have hclose : '\x7d' ∉ digits := notMem_of_digits hd (by decide)
  have hinner : (digits ++ '\x7d' :: rest).takeWhile (· ≠ '\x7d') = digits := by
    rw [List.takeWhile_append_of_pos fun c hc => ?_]
    · simp
    · exact decide_eq_true fun h => hclose (h ▸ hc)
  rw [place?, hinner, if_pos (by simp), index?_of_digits hne hd]
  cases h : args[Nat.ofDigitChars 10 digits 0]? with
  | none => simp [h]
  | some arg => simp [h]

/-- Without arguments there is no place. -/
theorem place?_nil (text : List Char) : place? [] text = none := by
  unfold place?
  dsimp only
  split
  · cases index? (text.takeWhile (· ≠ '\x7d')) with
    | none => rfl
    | some i => rfl
  · rfl

/-! ### The scan -/

/-- What belongs to a place that has been filled is left out. -/
theorem fillFrom_drop (args : List (List Char)) (skipped : Nat) (text : List Char) :
    fillFrom args skipped text = fillFrom args 0 (text.drop skipped) := by
  induction skipped generalizing text with
  | zero => rfl
  | succ skipped ih =>
    cases text with
    | nil => rfl
    | cons c text => exact ih text

theorem fillFrom_cons {c : Char} (hc : c ≠ '\x7b') :
    fillFrom args 0 (c :: text) = c :: fillFrom args 0 text :=
  if_neg hc

/-- Text without opening braces is kept. -/
theorem fillFrom_append (h : '\x7b' ∉ text) (rest : List Char) :
    fillFrom args 0 (text ++ rest) = text ++ fillFrom args 0 rest := by
  induction text with
  | nil => rfl
  | cons c text ih =>
    rw [List.mem_cons, not_or] at h
    rw [List.cons_append, fillFrom_cons (Ne.symm h.1), ih h.2, List.cons_append]

/-- The scan comes behind a place, with its argument or with the place as it stands. -/
theorem fillFrom_place (hne : digits ≠ []) (hd : ∀ c ∈ digits, c.isDigit = true)
    (rest : List Char) : fillFrom args 0 ('\x7b' :: (digits ++ '\x7d' :: rest)) =
      (args[Nat.ofDigitChars 10 digits 0]?).getD ('\x7b' :: (digits ++ ['\x7d']))
        ++ fillFrom args 0 rest := by
  rw [fillFrom, if_pos rfl, place?_of_digits hne hd]
  cases args[Nat.ofDigitChars 10 digits 0]? with
  | some arg =>
    have hbehind : (digits ++ '\x7d' :: rest).drop (digits.length + 1) = rest := by
      rw [List.drop_append]
      simp
    simp only [Option.map_some, Option.getD_some]
    rw [fillFrom_drop, hbehind]
  | none =>
    -- the digits and their closing brace are passed over like any text
    have hplain : '\x7b' ∉ digits ++ ['\x7d'] := by
      simp [notMem_of_digits hd (c := '\x7b') (by decide)]
    simp only [Option.map_none, Option.getD_none]
    rw [List.append_cons, fillFrom_append hplain, List.cons_append]

/-- Without arguments everything is kept. -/
theorem fillFrom_nil (text : List Char) : fillFrom [] 0 text = text := by
  induction text with
  | nil => rfl
  | cons c text ih =>
    rw [fillFrom, place?_nil, ih]
    split <;> rfl

/-! ### Pieces -/

/-- A piece of a message: text without opening braces, or the place of a number. -/
inductive Piece where
  | text (text : List Char) (plain : '\x7b' ∉ text)
  | place (digits : List Char) (nonempty : digits ≠ []) (decimal : ∀ c ∈ digits, c.isDigit = true)

namespace Piece

/-- A piece as it stands in the message. -/
def written : Piece → List Char
  | .text text _ => text
  | .place digits _ _ => '\x7b' :: (digits ++ ['\x7d'])

/-- A piece with the argument of its number, if it is a place that has one. -/
def filled (args : List String) : Piece → List Char
  | .text text _ => text
  | .place digits nonempty decimal =>
    if h : Nat.ofDigitChars 10 digits 0 < args.length then
      args[Nat.ofDigitChars 10 digits 0].toList
    else (place digits nonempty decimal).written

theorem fillFrom_written_append (args : List String) (p : Piece) (rest : List Char) :
    fillFrom (args.map String.toList) 0 (p.written ++ rest) =
      p.filled args ++ fillFrom (args.map String.toList) 0 rest := by
  cases p with
  | text text plain => exact fillFrom_append plain rest
  | place digits nonempty decimal =>
    rw [written, List.cons_append, List.append_assoc, List.singleton_append,
      fillFrom_place nonempty decimal, filled, List.getElem?_map]
    split
    · rename_i h
      rw [List.getElem?_eq_getElem h]
      rfl
    · rename_i h
      rw [List.getElem?_eq_none (Nat.le_of_not_lt h)]
      rfl

end Piece

/-- A message made of pieces is filled piece by piece, and nothing that an argument brings in
is filled again; without arguments every message stays as it is. -/
theorem fill_pieces :
    (∀ (args : List String) (pieces : List Piece),
      fill (String.ofList (pieces.flatMap Piece.written)) args
        = String.ofList (pieces.flatMap (Piece.filled args))) ∧
    ∀ message : String, fill message [] = message := by
  constructor
  · intro args pieces
    rw [fill, String.toList_ofList]
    congr 1
    induction pieces with
    | nil => rfl
    | cons p pieces ih =>
      rw [List.flatMap_cons, List.flatMap_cons, Piece.fillFrom_written_append, ih]
  · intro message
    rw [fill, List.map_nil, fillFrom_nil, String.ofList_toList]

/-- An argument that looks like a place stays as it is, and so does a place without an argument. -/
example : fill "\x7b0\x7d in \x7b01\x7d\x7b7\x7d" ["\x7b1\x7d", "b"]
    = "\x7b1\x7d in b\x7b7\x7d" := by
  decide

end Template

end TypeCatalog
