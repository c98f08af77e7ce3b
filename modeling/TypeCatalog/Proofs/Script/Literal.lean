/-
String literals are read back.

A script is read in code units, and so is the text that a literal stands for:
`Script.ReadsLiteral` is the grammar of literals between single quotes, with the code
units that each stands for and the text that follows it.  There is one way to read a
literal (`Script.ReadsUnits.unique`).

Every character stands for itself in a literal, or an escape stands for it
(`Script.quoteChar_cases`); none of what is written ends a line or controls anything
(`Script.allInert_quote`).  So a literal that a writer writes can be read in one way
only, whatever is written behind it: it ends at its own closing mark, and its code
units are those of the text and of no other one (`Script.Writer.readsLiteral_iff`).
-/
import TypeCatalog.Proofs.Json.Tokens
import TypeCatalog.Script.Writer

namespace TypeCatalog

namespace Script

/-! ### Characters that do no more than stand there -/

/-- A character that neither ends a line nor controls anything. -/
def IsInert (c : Char) : Prop :=
  0x20 ≤ c.toNat ∧ ¬ (0x7F ≤ c.toNat ∧ c.toNat ≤ 0x9F) ∧ c.toNat ≠ 0x2028 ∧ c.toNat ≠ 0x2029

instance (c : Char) : Decidable (IsInert c) :=
  inferInstanceAs (Decidable (_ ∧ _))

/-- A text of inert characters alone. -/
def AllInert (text : List Char) : Prop := ∀ c ∈ text, IsInert c

instance (text : List Char) : Decidable (AllInert text) :=
  List.decidableBAll IsInert text

section

variable {text : List Char} {c : Char}

theorem IsInert.ne_newline (h : IsInert c) : c ≠ '\n' := by
  rintro rfl
  exact absurd h (by decide)

theorem AllInert.append {rest : List Char} (h : AllInert text) (hrest : AllInert rest) :
    AllInert (text ++ rest) :=
  List.forall_mem_append.mpr ⟨h, hrest⟩

theorem newline_notMem_of_allInert (h : AllInert text) : '\n' ∉ text :=
  fun hc => (h _ hc).ne_newline rfl

theorem isInert_of_isDigit (h : c.isDigit = true) : IsInert c := by
  simp only [Char.isDigit, Bool.and_eq_true, decide_eq_true_eq, ge_iff_le, UInt32.le_iff_toNat_le]
    at h
  have hlow : 48 ≤ c.toNat := h.1
  have hhigh : c.toNat ≤ 57 := h.2
  unfold IsInert
  omega

end

/-! ### Code units -/

/-- The code units of a character; behind the first 65536 characters they are a pair of
surrogates, which no character is. -/
def charUnits (c : Char) : List Nat :=
  if c.toNat < 0x10000 then [c.toNat]
  else [0xD800 + (c.toNat - 0x10000) / 0x400, 0xDC00 + (c.toNat - 0x10000) % 0x400]

/-- The code units of a text. -/
def codeUnits (s : String) : List Nat := s.toList.flatMap charUnits

theorem charUnits_of_lt {c : Char} (h : c.toNat < 0x10000) : charUnits c = [c.toNat] := if_pos h

/-- The first code units of a text tell its first character. -/
theorem charUnits_append_inj {c c' : Char} {units units' : List Nat}
    (h : charUnits c ++ units = charUnits c' ++ units') : c = c' ∧ units = units' := by
  have hc : c.toNat.isValidChar := c.valid
  have hc' : c'.toNat.isValidChar := c'.valid
  have heq : c.toNat = c'.toNat → c = c' := fun h => Char.toNat_inj.mp h
  unfold charUnits at h
  unfold Nat.isValidChar at hc hc'
  split at h <;> split at h <;>
    simp only [List.cons_append, List.nil_append, List.cons.injEq] at h
  · exact ⟨heq h.1, h.2⟩
  -- a character is not the first half of a pair
  · omega
  · omega
  · exact ⟨heq (by omega), h.2.2⟩

theorem flatMap_charUnits_inj {cs cs' : List Char}
    (h : cs.flatMap charUnits = cs'.flatMap charUnits) : cs = cs' := by
  have hne : ∀ c units, charUnits c ++ units ≠ [] := by
    intro c units
    unfold charUnits
    split <;> exact List.cons_ne_nil _ _
  induction cs generalizing cs' with
  | nil =>
    cases cs' with
    | nil => rfl
    | cons c' cs' => exact absurd h.symm (hne c' _)
  | cons c cs ih =>
    cases cs' with
    | nil => exact absurd h (hne c _)
    | cons c' cs' =>
      obtain ⟨rfl, hrest⟩ := charUnits_append_inj h
      rw [ih hrest]

theorem codeUnits_inj {s s' : String} : codeUnits s = codeUnits s' ↔ s = s' :=
  ⟨fun h => String.toList_inj.mp (flatMap_charUnits_inj h), congrArg codeUnits⟩

/-! ### The grammar of literals -/

/-- Whether a character ends a line of a script. -/
def isLineEnd (c : Char) : Bool :=
  c = '\n' || c = '\r' || c.toNat = 0x2028 || c.toNat = 0x2029

/-- The characters that escapes of one letter stand for. -/
def escapeLetters : List (Char × Nat) :=
  [('\'', 0x27), ('\\', 0x5C), ('n', 0x0A), ('r', 0x0D), ('t', 0x09)]

/-- What may stand behind a backslash, with the code unit that it stands for. -/
inductive Escape : List Char → Nat → Prop where
  | letter {c : Char} {unit : Nat} (known : (c, unit) ∈ escapeLetters) : Escape [c] unit
  | digits {a b c d : Char} {i j k l : Nat} (ha : Json.hexValue? a = some i)
      (hb : Json.hexValue? b = some j) (hc : Json.hexValue? c = some k)
      (hd : Json.hexValue? d = some l) :
      Escape ['u', a, b, c, d] (((i * 16 + j) * 16 + k) * 16 + l)

/-- What may stand behind the mark that opens a literal, up to the mark that closes it, with
the code units that it stands for and the text behind it. -/
inductive ReadsUnits : List Char → List Nat → List Char → Prop where
  | close (rest : List Char) : ReadsUnits ('\'' :: rest) [] rest
  | plain {c : Char} {text rest : List Char} {units : List Nat} (mark : c ≠ '\'')
      (backslash : c ≠ '\\') (lineEnd : isLineEnd c = false) (reads : ReadsUnits text units rest) :
      ReadsUnits (c :: text) (charUnits c ++ units) rest
  | escape {letters text rest : List Char} {unit : Nat} {units : List Nat}
      (escape : Escape letters unit) (reads : ReadsUnits text units rest) :
      ReadsUnits ('\\' :: (letters ++ text)) (unit :: units) rest

/-- A text begins with a literal for some code units, and the rest of it follows the literal. -/
inductive ReadsLiteral : List Char → List Nat → List Char → Prop where
  | intro {text rest : List Char} {units : List Nat} (reads : ReadsUnits text units rest) :
      ReadsLiteral ('\'' :: text) units rest

theorem IsInert.isLineEnd_eq_false {c : Char} (h : IsInert c) : isLineEnd c = false := by
  have hreturn : c ≠ '\r' := by
    rintro rfl
    exact absurd h (by decide)
  simp [isLineEnd, h.ne_newline, hreturn, h.2.2.1, h.2.2.2]

theorem isInert_of_hexValue? {c : Char} {n : Nat} (h : Json.hexValue? c = some n) :
    IsInert c := by
  have hbetween : ∀ {first last : Char}, first ≤ c ∧ c ≤ last → 0x20 ≤ first.toNat →
      last.toNat < 0x7F → IsInert c := by
    intro first last hc hfirst hlast
    have hlow : first.toNat ≤ c.toNat := hc.1
    have hhigh : c.toNat ≤ last.toNat := hc.2
    unfold IsInert
    omega
  unfold Json.hexValue? at h
  split at h
  · exact isInert_of_isDigit ‹_›
  split at h
  · exact hbetween ‹_› (by decide) (by decide)
  split at h
  · exact hbetween ‹_› (by decide) (by decide)
  · cases h

theorem Escape.allInert {letters : List Char} {unit : Nat} (h : Escape letters unit) :
    AllInert letters := by
  have hletters : ∀ e ∈ escapeLetters, IsInert e.1 := by decide
  cases h with
  | letter known => exact List.forall_mem_singleton.mpr (hletters _ known)
  | digits ha hb hc hd =>
    intro d hd'
    simp only [List.mem_cons, List.not_mem_nil, or_false] at hd'
    rcases hd' with rfl | rfl | rfl | rfl | rfl
    · decide
    · exact isInert_of_hexValue? ha
    · exact isInert_of_hexValue? hb
    · exact isInert_of_hexValue? hc
    · exact isInert_of_hexValue? hd

/-! ### There is one way to read a literal -/

theorem Escape.unique {letters letters' text text' : List Char} {unit unit' : Nat}
    (h : Escape letters unit) (h' : Escape letters' unit')
    (ht : letters ++ text = letters' ++ text') : unit = unit' ∧ text = text' := by
  have hletters : ∀ e ∈ escapeLetters, ∀ e' ∈ escapeLetters, e.1 = e'.1 → e.2 = e'.2 := by decide
  have hu : ∀ e ∈ escapeLetters, e.1 ≠ 'u' := by decide
  cases h with
  | letter known =>
    cases h' with
    | letter known' =>
      rw [List.singleton_append, List.singleton_append, List.cons.injEq] at ht
      exact ⟨hletters _ known _ known' ht.1, ht.2⟩
    | digits => exact absurd (List.cons.inj ht).1 (hu _ known)
  | digits ha hb hc hd =>
    cases h' with
    | letter known' => exact absurd (List.cons.inj ht).1.symm (hu _ known')
    | digits ha' hb' hc' hd' =>
      simp only [List.cons_append, List.nil_append, List.cons.injEq, true_and] at ht
      obtain ⟨rfl, rfl, rfl, rfl, rfl⟩ := ht
      cases Option.some.inj (ha.symm.trans ha')
      cases Option.some.inj (hb.symm.trans hb')
      cases Option.some.inj (hc.symm.trans hc')
      cases Option.some.inj (hd.symm.trans hd')
      exact ⟨rfl, rfl⟩

theorem ReadsUnits.unique {text rest rest' : List Char} {units units' : List Nat}
    (h : ReadsUnits text units rest) (h' : ReadsUnits text units' rest') :
    units = units' ∧ rest = rest' := by
  induction h generalizing units' with
  | close rest =>
    cases h' with
    | close => exact ⟨rfl, rfl⟩
    | plain mark => exact absurd rfl mark
  | plain mark backslash _ _ ih =>
    cases h' with
    | close => exact absurd rfl mark
    | plain _ _ _ reads =>
      obtain ⟨rfl, rfl⟩ := ih reads
      exact ⟨rfl, rfl⟩
    | escape => exact absurd rfl backslash
  | @escape letters text rest unit units escape _ ih =>
    generalize htext : '\\' :: (letters ++ text) = whole at h'
    cases h' with
    | close => cases htext
    | plain _ backslash => exact absurd (List.cons.inj htext).1.symm backslash
    | escape escape' reads =>
      obtain ⟨rfl, rfl⟩ := escape.unique escape' (List.cons.inj htext).2
      obtain ⟨rfl, rfl⟩ := ih reads
      exact ⟨rfl, rfl⟩

/-! ### Literals that were written -/

theorem escape_fourHex {n : Nat} (h : n < 0x10000) : Escape ('u' :: fourHex n) n := by
  have hvalue : ∀ m : Nat, Json.hexValue? (Nat.digitChar (m % 16)) = some (m % 16) :=
    fun m => Json.hexValue?_digitChar (Nat.mod_lt m (by decide))
  have hdigits : ((n / 4096 % 16 * 16 + n / 256 % 16) * 16 + n / 16 % 16) * 16 + n % 16 = n := by
    omega
  have hescape := Escape.digits (hvalue (n / 4096)) (hvalue (n / 256)) (hvalue (n / 16)) (hvalue n)
  rwa [hdigits] at hescape

/-- A character stands for itself, or an escape stands for its one code unit. -/
theorem quoteChar_cases (c : Char) :
    (quoteChar c = [c] ∧ c ≠ '\'' ∧ c ≠ '\\' ∧ IsInert c) ∨
    ∃ letters unit, quoteChar c = '\\' :: letters ∧ Escape letters unit ∧ charUnits c = [unit] := by
  unfold quoteChar
  split
  · rename_i h
    subst h
    exact .inr ⟨['\''], 0x27, rfl, .letter (by decide), rfl⟩
  split
  · rename_i h
    subst h
    exact .inr ⟨['\\'], 0x5C, rfl, .letter (by decide), rfl⟩
  split
  · rename_i h
    subst h
    exact .inr ⟨['n'], 0x0A, rfl, .letter (by decide), rfl⟩
  split
  · rename_i h
    subst h
    exact .inr ⟨['r'], 0x0D, rfl, .letter (by decide), rfl⟩
  split
  · rename_i h
    subst h
    exact .inr ⟨['t'], 0x09, rfl, .letter (by decide), rfl⟩
  split
  · rename_i h
    have hlow : c.toNat < 0x10000 := by
      simp only [isControl, Bool.or_eq_true, Bool.and_eq_true, decide_eq_true_eq] at h
      omega
    exact .inr ⟨'u' :: fourHex c.toNat, c.toNat, rfl, escape_fourHex hlow, charUnits_of_lt hlow⟩
  · -- a character that stands for itself has passed all tests
    rename_i hmark hback _ _ _ hother
    refine .inl ⟨rfl, hmark, hback, ?_⟩
    simp only [isControl, Bool.or_eq_true, Bool.and_eq_true, decide_eq_true_eq, not_or] at hother
    unfold IsInert
    omega

/-- What stands for a character in a literal is read as the character. -/
theorem ReadsUnits.quoteChar {text rest : List Char} {units : List Nat}
    (h : ReadsUnits text units rest) (c : Char) :
    ReadsUnits (quoteChar c ++ text) (charUnits c ++ units) rest := by
  obtain ⟨hc, hmark, hback, hinert⟩ | ⟨letters, unit, hc, hescape, hunit⟩ := quoteChar_cases c
  · rw [hc]
    exact .plain hmark hback hinert.isLineEnd_eq_false h
  · rw [hc, hunit]
    exact .escape hescape h

theorem readsUnits_quoted (cs rest : List Char) :
    ReadsUnits (cs.flatMap quoteChar ++ '\'' :: rest) (cs.flatMap charUnits) rest := by
  induction cs with
  | nil => exact .close rest
  | cons c cs ih =>
    rw [List.flatMap_cons, List.flatMap_cons, List.append_assoc]
    exact ih.quoteChar c

/-- A quoted text is read as itself, and in no other way. -/
theorem readsLiteral_quote_iff {cs rest rest' : List Char} {units : List Nat} :
    ReadsLiteral (quote cs ++ rest) units rest' ↔ units = cs.flatMap charUnits ∧ rest' = rest := by
  have hreads := readsUnits_quoted cs rest
  rw [quote, List.cons_append, List.append_assoc, List.singleton_append]
  constructor
  · rintro ⟨h⟩
    exact h.unique hreads
  · rintro ⟨rfl, rfl⟩
    exact .intro hreads

/-- A literal says where it ends and which text it stands for. -/
theorem quote_append_inj {s s' rest rest' : List Char}
    (h : quote s ++ rest = quote s' ++ rest') : s = s' ∧ rest = rest' := by
  have hreads : ReadsLiteral (quote s' ++ rest') (s.flatMap charUnits) rest :=
    h ▸ readsLiteral_quote_iff.mpr ⟨rfl, rfl⟩
  obtain ⟨hunits, hrest⟩ := readsLiteral_quote_iff.mp hreads
  exact ⟨flatMap_charUnits_inj hunits, hrest⟩

/-- What stands for a character in a literal is inert, whatever the character is. -/
theorem allInert_quoteChar (c : Char) : AllInert (quoteChar c) := by
  obtain ⟨hc, -, -, hinert⟩ | ⟨letters, unit, hc, hescape, -⟩ := quoteChar_cases c
  · rw [hc]
    exact List.forall_mem_singleton.mpr hinert
  · rw [hc]
    exact List.forall_mem_cons.mpr ⟨by decide, hescape.allInert⟩

theorem allInert_quote (text : List Char) : AllInert (quote text) := by
  have hmark : AllInert ['\''] := by decide
  have hchars : AllInert (text.flatMap quoteChar) :=
    List.forall_mem_flatMap.mpr fun c _ => allInert_quoteChar c
  exact hmark.append (hchars.append hmark)

/-! ### What a writer writes for a text -/

namespace Writer

/-- What comes before the next text in the open line: a line that is still empty is indented. -/
def lead (w : Writer) : List Char := if w.opened = [] then indentation w.level else []

theorem chars_step_write (w : Writer) (newLine : NewLine) {text : List Char} (h : text ≠ []) :
    (w.step (.write text)).chars newLine = w.chars newLine ++ w.lead ++ text := by
  unfold step lead chars
  dsimp only
  rw [if_neg h]
  split
  · rename_i hopened
    rw [hopened, List.append_nil, List.append_assoc]
  · rw [List.append_nil, List.append_assoc]

/-- What a writer writes for a text, behind the indentation of the line, is read back, whatever
follows it: the literal ends where it was ended, the rest is what follows, and the code
units are those of the text and of no other one. -/
theorem readsLiteral_iff (s : String) :
    ∃ literal : List Char,
      (∀ (w : Writer) (newLine : NewLine),
        (w.step (.literal s)).chars newLine = w.chars newLine ++ w.lead ++ literal) ∧
      ∀ (rest : List Char) (units : List Nat) (rest' : List Char),
        ReadsLiteral (literal ++ rest) units rest' ↔
          (∀ s', units = codeUnits s' ↔ s' = s) ∧ rest' = rest := by
  refine ⟨quote s.toList, fun w newLine => ?_, fun rest units rest' => ?_⟩
  · exact w.chars_step_write newLine (List.cons_ne_nil _ _)
  rw [readsLiteral_quote_iff]
  refine and_congr_left fun _ => ?_
  constructor
  · rintro rfl s'
    exact codeUnits_inj.trans eq_comm
  · intro h
    exact (h s).mpr rfl

end Writer

end Script

end TypeCatalog
