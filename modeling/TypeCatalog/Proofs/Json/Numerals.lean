/-
Numerals are scanned alike at the end of a text and before what ends them.

A scanner of numerals looks at most at one character behind the numeral.  So if a
text is scanned to a number up to its end, it is scanned to the number wherever the
text goes on with what cannot belong to a numeral (`Json.isNumeral_of_scanNumber`),
and a number that is read back from its own text is read back inside a larger one.
-/
import TypeCatalog.Proofs.Json.Tokens

namespace TypeCatalog

namespace Json

variable {text rest left ds : List Char}

/-! ### Digits -/

theorem spanDigits_append_of_ends (hr : EndsNumeral rest) (text : List Char) :
    spanDigits (text ++ rest) = ((spanDigits text).1, (spanDigits text).2 ++ rest) := by
  simp only [spanDigits, List.span_eq_takeWhile_dropWhile]
  induction text with
  | nil =>
    cases rest with
    | nil => rfl
    | cons c rest =>
      have hc := (hr c rfl).1
      simp [hc]
  | cons c text ih =>
    simp only [Prod.mk.injEq] at ih
    by_cases hc : c.isDigit = true
    · simp [hc, ih]
    · simp [hc]

theorem scanWhole_append (hr : EndsNumeral rest) (h : scanWhole text = .ok (ds, left)) :
    scanWhole (text ++ rest) = .ok (ds, left ++ rest) := by
  cases text with
  | nil => cases h
  | cons c text =>
    rw [List.cons_append]
    unfold scanWhole at h ⊢
    dsimp only at h ⊢
    by_cases hzero : c = '0'
    · rw [if_pos hzero] at h ⊢
      cases text with
      | nil =>
        -- the digit that must not stand behind a zero may only come from the rest
        cases h
        cases rest with
        | nil => rfl
        | cons d rest =>
          have hd := (hr d rfl).1
          simp [hd]
      | cons d text =>
        dsimp only [List.cons_append] at h ⊢
        split at h
        · cases h
        · rename_i hd
          cases h
          rw [if_neg hd, List.cons_append]
    · rw [if_neg hzero] at h ⊢
      split at h
      · rename_i hc
        cases h
        rw [if_pos hc, spanDigits_append_of_ends hr]
      · cases h

/-- A whole part begins with a digit. -/
theorem exists_digit_of_scanWhole (h : scanWhole text = .ok (ds, left)) :
    ∃ c more, text = c :: more ∧ c.isDigit = true := by
  cases text with
  | nil => cases h
  | cons c text =>
    refine ⟨c, text, rfl, ?_⟩
    unfold scanWhole at h
    dsimp only at h
    by_cases hzero : c = '0'
    · rw [hzero]
      rfl
    · rw [if_neg hzero] at h
      split at h
      · assumption
      · cases h

theorem scanSomeDigits_append (hr : EndsNumeral rest) (h : scanSomeDigits text = .ok (ds, left)) :
    scanSomeDigits (text ++ rest) = .ok (ds, left ++ rest) := by
  unfold scanSomeDigits at h ⊢
  rw [spanDigits_append_of_ends hr]
  split at h
  · cases h
  · cases h
  · rename_i hnil hcons heq
    cases h
    rw [heq]
    cases ds with
    | nil =>
      cases left with
      | nil => exact (hnil rfl rfl).elim
      | cons c left => exact (hcons c left rfl rfl).elim
    | cons c ds => rfl

/-! ### Fractions and exponents -/

theorem scanFraction_of_ne_point (h : ∀ more, text ≠ '.' :: more) :
    scanFraction text = .ok (none, text) := by
  rw [scanFraction]
  exact h

theorem scanFraction_append {fraction : Option (List Char)} (hr : EndsNumeral rest)
    (h : scanFraction text = .ok (fraction, left)) :
    scanFraction (text ++ rest) = .ok (fraction, left ++ rest) := by
  by_cases hpoint : ∃ more, text = '.' :: more
  · obtain ⟨more, rfl⟩ := hpoint
    rw [List.cons_append]
    rw [scanFraction] at h ⊢
    obtain ⟨found, hdigits, heq⟩ := exists_of_map_eq_ok h
    rw [scanSomeDigits_append hr hdigits]
    cases heq
    rfl
  · rw [scanFraction_of_ne_point fun more hm => hpoint ⟨more, hm⟩] at h
    cases h
    cases text with
    | nil => exact scanFraction_of_ends hr
    | cons c text =>
      refine scanFraction_of_ne_point fun more hm => ?_
      cases hm
      exact hpoint ⟨text, rfl⟩

/-- The sign of an exponent, and what follows it. -/
def exponentSign : List Char → Bool × List Char
  | '+' :: text => (false, text)
  | '-' :: text => (true, text)
  | text => (false, text)

theorem exponentSign_append (hne : text ≠ []) :
    exponentSign (text ++ rest) = ((exponentSign text).1, (exponentSign text).2 ++ rest) := by
  obtain ⟨c, text, rfl⟩ := List.exists_cons_of_ne_nil hne
  rw [List.cons_append]
  by_cases hplus : c = '+'
  · subst hplus
    rfl
  · by_cases hminus : c = '-'
    · subst hminus
      rfl
    · have hnone : ∀ text, exponentSign (c :: text) = (false, c :: text) := by
        intro text
        rw [exponentSign]
        · exact fun more heq => hplus (List.cons.inj heq).1
        · exact fun more heq => hminus (List.cons.inj heq).1
      rw [hnone, hnone, List.cons_append]

theorem scanExponent_letter {c : Char} (hc : c = 'e' ∨ c = 'E') (text : List Char) :
    scanExponent (c :: text) = (scanSomeDigits (exponentSign text).2).map fun found =>
      let size : Int := (found.1.foldl (fun n d => n * 10 + digitValue d) 0 : Nat)
      (some (if (exponentSign text).1 then -size else size), found.2) :=
  if_pos hc

theorem scanExponent_append {exponent : Option Int} (hr : EndsNumeral rest)
    (h : scanExponent text = .ok (exponent, left)) :
    scanExponent (text ++ rest) = .ok (exponent, left ++ rest) := by
  cases text with
  | nil =>
    cases h
    exact scanExponent_of_ends hr
  | cons c text =>
    rw [List.cons_append]
    by_cases hc : c = 'e' ∨ c = 'E'
    · rw [scanExponent_letter hc] at h ⊢
      obtain ⟨found, hdigits, heq⟩ := exists_of_map_eq_ok h
      -- something stands behind the letter, so the sign is told as before
      have hne : text ≠ [] := by
        rintro rfl
        cases hdigits
      rw [exponentSign_append hne, scanSomeDigits_append hr hdigits]
      cases heq
      rfl
    · have hnone : ∀ text, scanExponent (c :: text) = .ok (none, c :: text) :=
        fun text => if_neg hc
      rw [hnone] at h ⊢
      cases h
      rfl

/-! ### Numbers -/

/-- The parts of a numeral behind its sign. -/
def scanMagnitude (negative : Bool) (text : List Char) : Except Fault (Numeral × List Char) := do
  let (whole, text) ← scanWhole text
  let (fraction, text) ← scanFraction text
  let (exponent, text) ← scanExponent text
  return (⟨negative, whole, fraction, exponent⟩, text)

variable {negative : Bool} {n : Numeral} {v : Json}

theorem scanMagnitude_append (hr : EndsNumeral rest)
    (h : scanMagnitude negative text = .ok (n, left)) :
    scanMagnitude negative (text ++ rest) = .ok (n, left ++ rest) := by
  unfold scanMagnitude at h ⊢
  obtain ⟨whole, hwhole, h⟩ := exists_of_bind_eq_ok h
  obtain ⟨fraction, hfraction, h⟩ := exists_of_bind_eq_ok h
  obtain ⟨exponent, hexponent, h⟩ := exists_of_bind_eq_ok h
  cases h
  refine (bind_of_eq_ok (scanWhole_append hr hwhole) _).trans ?_
  refine (bind_of_eq_ok (scanFraction_append hr hfraction) _).trans ?_
  exact bind_of_eq_ok (scanExponent_append hr hexponent) _

theorem scanNumeral_minus (text : List Char) :
    scanNumeral ('-' :: text) = scanMagnitude true text :=
  rfl

theorem scanNumeral_of_ne_minus (h : ∀ more, text ≠ '-' :: more) :
    scanNumeral text = scanMagnitude false text := by
  rw [scanNumeral]
  · rfl
  · exact h

/-- A numeral begins with a sign or a digit, and is scanned alike before what ends it. -/
theorem scanNumeral_append (h : scanNumeral text = .ok (n, left)) :
    (∃ c more, text = c :: more ∧ (c = '-' ∨ c.isDigit = true)) ∧
      ∀ rest, EndsNumeral rest → scanNumeral (text ++ rest) = .ok (n, left ++ rest) := by
  by_cases hminus : ∃ more, text = '-' :: more
  · obtain ⟨more, rfl⟩ := hminus
    rw [scanNumeral_minus] at h
    refine ⟨⟨'-', more, rfl, .inl rfl⟩, fun rest hr => ?_⟩
    rw [List.cons_append, scanNumeral_minus, scanMagnitude_append hr h]
  · have hne : ∀ more, text ≠ '-' :: more := fun more hm => hminus ⟨more, hm⟩
    rw [scanNumeral_of_ne_minus hne] at h
    obtain ⟨whole, hwhole, -⟩ := exists_of_bind_eq_ok h
    obtain ⟨c, more, rfl, hc⟩ := exists_digit_of_scanWhole hwhole
    refine ⟨⟨c, more, rfl, .inr hc⟩, fun rest hr => ?_⟩
    rw [scanNumeral_of_ne_minus, scanMagnitude_append hr h]
    rintro more' heq
    cases heq
    exact hne more rfl

/-- A number that is read up to the end of a text is read wherever its numeral ends. -/
theorem isNumeral_of_scanNumber (h : scanNumber text = .found v []) : IsNumeral text v := by
  unfold scanNumber at h
  cases hn : scanNumeral text with
  | error fault =>
    rw [hn] at h
    cases h
  | ok found =>
    obtain ⟨n, left⟩ := found
    obtain ⟨hhead, hscan⟩ := scanNumeral_append hn
    rw [hn] at h
    dsimp only at h
    split at h
    · rename_i value hvalue
      cases h
      refine ⟨hhead, fun rest hr => ?_⟩
      rw [scanNumber, hscan rest hr]
      dsimp only
      rw [hvalue, List.nil_append]
    · cases h

end Json

end TypeCatalog
