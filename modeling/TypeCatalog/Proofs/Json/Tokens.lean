/-
Tokens that were printed are read back.

A string that was quoted is scanned to itself, whatever stands behind it
(`Json.scanString_quote`): every character stands for itself or is written as an
escape that stands for it (`Json.escape_cases`).  The digits of a whole number
within 64 bits are scanned to the number, if no character behind them could
belong to a numeral (`Json.isNumeral_digits`).
-/
import Mathlib.Data.List.TakeDrop
import TypeCatalog.Json.Printer
import TypeCatalog.Json.Scan
import TypeCatalog.Proofs.Except

namespace TypeCatalog

namespace Json

/-! ### Strings -/

theorem hexValue?_digitChar {d : Nat} (h : d < 16) : hexValue? (Nat.digitChar d) = some d := by
  have hall : ∀ d < 16, hexValue? (Nat.digitChar d) = some d := by decide
  exact hall d h

theorem scanFourHex_hexDigits {n : Nat} (h : n < 65536) (text : List Char) :
    scanFourHex (hexDigits 4 n ++ text) = .ok (n, text) := by
  have hvalue := fun m => hexValue?_digitChar (Nat.mod_lt m (by decide : 0 < 16))
  simp only [hexDigits, List.nil_append, List.cons_append, scanFourHex, hvalue]
  refine congrArg Except.ok (Prod.ext ?_ rfl)
  dsimp only
  omega

theorem scanCodePoint_hexDigits {c : Char} (h : c.toNat < 32) (text : List Char) :
    scanCodePoint (hexDigits 4 c.toNat ++ text) = .ok (c, text) := by
  -- control characters are far below the surrogates
  have hlow : isLowHalf c.toNat = false := by simp [isLowHalf]; omega
  have hhigh : isHighHalf c.toNat = false := by simp [isHighHalf]; omega
  rw [scanCodePoint, scanFourHex_hexDigits (by omega)]
  show (if isLowHalf c.toNat then _ else if isHighHalf c.toNat then _ else _) = _
  rw [hlow, hhigh, Char.ofNat_toNat]
  rfl

theorem eq_ofNat_of_toNat {c : Char} {n : Nat} (h : c.toNat = n) : c = Char.ofNat n := by
  rw [← h, Char.ofNat_toNat]

/-- A character stands for itself, or an escape stands for it. -/
theorem escape_cases (c : Char) :
    (escape c = [c] ∧ c ≠ '"' ∧ c ≠ '\\' ∧ ¬ c.toNat < 32) ∨
    ∃ letters, escape c = '\\' :: letters ∧
      ∀ text, scanEscape (letters ++ text) = .ok (c, text) := by
  unfold escape
  split
  · rename_i h
    subst h
    exact .inr ⟨['"'], rfl, fun _ => rfl⟩
  split
  · rename_i h
    subst h
    exact .inr ⟨['\\'], rfl, fun _ => rfl⟩
  split
  · rename_i h
    subst h
    exact .inr ⟨['n'], rfl, fun _ => rfl⟩
  split
  · rename_i h
    subst h
    exact .inr ⟨['r'], rfl, fun _ => rfl⟩
  split
  · rename_i h
    subst h
    exact .inr ⟨['t'], rfl, fun _ => rfl⟩
  split
  · rename_i h
    exact .inr ⟨['b'], rfl, fun _ => eq_ofNat_of_toNat h ▸ rfl⟩
  split
  · rename_i h
    exact .inr ⟨['f'], rfl, fun _ => eq_ofNat_of_toNat h ▸ rfl⟩
  split
  · rename_i h
    refine .inr ⟨'u' :: hexDigits 4 c.toNat, rfl, fun text => ?_⟩
    rw [List.cons_append, scanEscape, if_pos rfl]
    exact scanCodePoint_hexDigits h text
  · rename_i hquote hback _ _ _ _ _ hcontrol
    exact .inl ⟨rfl, hquote, hback, hcontrol⟩

theorem scanChars_escape (cs rest : List Char) {bound : Nat} (hb : cs.length < bound) :
    scanChars bound (cs.flatMap escape ++ '"' :: rest) = .ok (cs, rest) := by
  induction cs generalizing bound with
  | nil =>
    obtain ⟨b, rfl⟩ := Nat.exists_eq_add_of_lt hb
    simp [scanChars]
  | cons c cs ih =>
    obtain ⟨b, rfl⟩ : ∃ b, bound = b + 1 := ⟨bound - 1, by omega⟩
    have hrest : scanChars b (cs.flatMap escape ++ '"' :: rest) = .ok (cs, rest) :=
      ih (by simpa using hb)
    rw [List.flatMap_cons, List.append_assoc]
    obtain ⟨he, hquote, hback, hcontrol⟩ | ⟨letters, he, hletters⟩ := escape_cases c
    · rw [he, List.singleton_append, scanChars, if_neg hquote, if_neg hback, if_neg hcontrol, hrest]
      rfl
    · rw [he, List.cons_append, scanChars, if_neg (by decide), if_pos rfl, hletters]
      exact bind_of_eq_ok hrest _

theorem length_le_length_escape (cs : List Char) : cs.length ≤ (cs.flatMap escape).length := by
  induction cs with
  | nil => exact Nat.le_refl 0
  | cons c cs ih =>
    have hpos : 0 < (escape c).length := by
      obtain ⟨he, -⟩ | ⟨letters, he, -⟩ := escape_cases c
      all_goals
        rw [he]
        exact Nat.succ_pos _
    rw [List.flatMap_cons, List.length_append, List.length_cons]
    omega

/-- A quoted text is scanned to itself. -/
theorem scanString_quote (s : String) (rest : List Char) :
    scanString (s.toList.flatMap escape ++ '"' :: rest) = .found s rest := by
  have hbound := length_le_length_escape s.toList
  have hchars : scanChars ((s.toList.flatMap escape ++ '"' :: rest).length + 1)
      (s.toList.flatMap escape ++ '"' :: rest) = .ok (s.toList, rest) := by
    refine scanChars_escape _ _ ?_
    rw [List.length_append]
    omega
  rw [scanString, hchars]
  exact congrArg (Scan.found · rest) String.ofList_toList

/-! ### Numerals -/

/-- No character at the head of a text could belong to a numeral before it. -/
def EndsNumeral (text : List Char) : Prop :=
  ∀ c, text.head? = some c → c.isDigit = false ∧ c ≠ '.' ∧ c ≠ 'e' ∧ c ≠ 'E'

/-- A text that is scanned to a number, whatever ends it. -/
structure IsNumeral (text : List Char) (value : Json) : Prop where
  head : ∃ c rest, text = c :: rest ∧ (c = '-' ∨ c.isDigit = true)
  scan : ∀ rest, EndsNumeral rest → scanNumber (text ++ rest) = .found value rest

theorem spanDigits_append {ds rest : List Char} (hd : ∀ c ∈ ds, c.isDigit = true)
    (hr : EndsNumeral rest) : spanDigits (ds ++ rest) = (ds, rest) := by
  rw [spanDigits, List.span_eq_takeWhile_dropWhile, List.takeWhile_append_of_pos hd,
    List.dropWhile_append_of_pos hd]
  cases rest with
  | nil => simp
  | cons c rest =>
    have hc := (hr c rfl).1
    simp [hc]

theorem scanFraction_of_ends {rest : List Char} (hr : EndsNumeral rest) :
    scanFraction rest = .ok (none, rest) := by
  unfold scanFraction
  split
  · exact absurd rfl (hr '.' rfl).2.1
  · rfl

theorem scanExponent_of_ends {rest : List Char} (hr : EndsNumeral rest) :
    scanExponent rest = .ok (none, rest) := by
  cases rest with
  | nil => rfl
  | cons c rest =>
    obtain ⟨-, -, he, hE⟩ := hr c rfl
    unfold scanExponent
    exact if_neg (by simp [he, hE])

theorem isDigit_of_mem_toDigits {n : Nat} {c : Char} (hc : c ∈ Nat.toDigits 10 n) :
    c.isDigit = true :=
  Nat.isDigit_of_mem_toDigits (by decide) (by decide) hc

theorem exists_digit_cons (n : Nat) :
    ∃ c ds, Nat.toDigits 10 n = c :: ds ∧ c.isDigit = true := by
  cases hd : Nat.toDigits 10 n with
  | nil => exact absurd hd Nat.toDigits_ne_nil
  | cons c ds => exact ⟨c, ds, rfl, isDigit_of_mem_toDigits (hd ▸ List.mem_cons_self)⟩

/-- The digits of a positive number do not begin with a zero. -/
theorem toDigits_head_ne {n : Nat} (hn : 0 < n) :
    ∃ c ds, Nat.toDigits 10 n = c :: ds ∧ c ≠ '0' := by
  induction n using Nat.base_induction 10 (by decide) with
  | single m hm =>
    refine ⟨m.digitChar, [], Nat.toDigits_of_lt_base hm, ?_⟩
    rw [ne_eq, Nat.digitChar_eq_zero]
    omega
  | digit m k hk hm ih =>
    obtain ⟨c, ds, hc, hne⟩ := ih hm
    rw [← Nat.toDigits_append_toDigits (by decide) hm hk, hc]
    exact ⟨c, _, rfl, hne⟩

theorem scanWhole_toDigits (n : Nat) {rest : List Char} (hr : EndsNumeral rest) :
    scanWhole (Nat.toDigits 10 n ++ rest) = .ok (Nat.toDigits 10 n, rest) := by
  have hdigits : ∀ c ∈ Nat.toDigits 10 n, c.isDigit = true := fun c => isDigit_of_mem_toDigits
  rcases Nat.eq_zero_or_pos n with rfl | hn
  · rw [Nat.toDigits_zero]
    cases rest with
    | nil => rfl
    | cons c rest =>
      have hc := (hr c rfl).1
      simp [scanWhole, hc]
  · obtain ⟨c, ds, hc, hne⟩ := toDigits_head_ne hn
    rw [hc] at hdigits ⊢
    have hspan := spanDigits_append (fun d hd => hdigits d (List.mem_cons_of_mem c hd)) hr
    rw [List.cons_append]
    unfold scanWhole
    dsimp only
    rw [if_neg hne, if_pos (hdigits c List.mem_cons_self), hspan]

theorem le_ofDigitChars (ds : List Char) (n : Nat) : n ≤ Nat.ofDigitChars 10 ds n := by
  induction ds generalizing n with
  | nil => simp
  | cons c ds ih =>
    have hnext := ih (10 * n + (c.toNat - '0'.toNat))
    rw [Nat.ofDigitChars_cons]
    omega

/-- No digit is dropped while the number fits. -/
theorem absorbWhole_eq (ds : List Char) (n : Nat)
    (h : Nat.ofDigitChars 10 ds n ≤ greatestSignificand) :
    absorbWhole (n, 0) ds = (Nat.ofDigitChars 10 ds n, 0) := by
  induction ds generalizing n with
  | nil => simp [absorbWhole]
  | cons c ds ih =>
    rw [Nat.ofDigitChars_cons, Nat.mul_comm] at h ⊢
    have hnext : n * 10 + digitValue c ≤ greatestSignificand :=
      Nat.le_trans (le_ofDigitChars ds _) h
    rw [absorbWhole, if_pos ⟨rfl, hnext⟩]
    exact ih _ h

theorem scanNumeral_digits (i : Int) {rest : List Char} (hr : EndsNumeral rest) :
    scanNumeral (digits i ++ rest)
      = .ok (⟨decide (i < 0), Nat.toDigits 10 i.natAbs, none, none⟩, rest) := by
  have hwhole := scanWhole_toDigits i.natAbs hr
  have hfraction := scanFraction_of_ends hr
  have hexponent := scanExponent_of_ends hr
  unfold digits
  split
  · rename_i hi
    rw [decide_eq_true hi]
    exact (bind_of_eq_ok hwhole _).trans
      ((bind_of_eq_ok hfraction _).trans (bind_of_eq_ok hexponent _))
  · rename_i hi
    rw [decide_eq_false hi, scanNumeral]
    · exact (bind_of_eq_ok hwhole _).trans
        ((bind_of_eq_ok hfraction _).trans (bind_of_eq_ok hexponent _))
    · -- a digit is no sign
      intro text htext
      obtain ⟨c, ds, hd, hc⟩ := exists_digit_cons i.natAbs
      rw [hd] at htext
      cases htext
      exact absurd hc (by decide)

/-- Whole numbers within 64 bits, signed or unsigned, are kept. -/
theorem isNumeral_digits {i : Int} (h : i.natAbs ≤ greatestSignificand)
    (hneg : i < 0 → i.natAbs ≤ Nat.pow 2 63) : IsNumeral (digits i) (.integer i) := by
  constructor
  · unfold digits
    split
    · exact ⟨'-', _, rfl, .inl rfl⟩
    · obtain ⟨c, ds, hd, hc⟩ := exists_digit_cons i.natAbs
      exact ⟨c, ds, hd, .inr hc⟩
  · intro rest hr
    have habsorb : absorbWhole (0, 0) (Nat.toDigits 10 i.natAbs) = (i.natAbs, 0) := by
      rw [absorbWhole_eq, Nat.ofDigitChars_ten_toDigits]
      rw [Nat.ofDigitChars_ten_toDigits]
      exact h
    have hvalue : (⟨decide (i < 0), Nat.toDigits 10 i.natAbs, none, none⟩ : Numeral).value?
        = some (.integer i) := by
      rw [Numeral.value?]
      dsimp only
      rw [habsorb]
      dsimp only
      by_cases hi : i < 0
      · have hbound : 0 < i.natAbs ∧ i.natAbs ≤ Nat.pow 2 63 := ⟨by omega, hneg hi⟩
        rw [decide_eq_true hi, if_neg (by simp), if_neg (by simp), if_pos hbound]
        refine congrArg (some ∘ Json.integer) ?_
        omega
      · rw [decide_eq_false hi, if_neg (by simp), if_pos rfl]
        refine congrArg (some ∘ Json.integer) ?_
        omega
    rw [scanNumber, scanNumeral_digits i hr]
    dsimp only
    rw [hvalue]

end Json

end TypeCatalog
