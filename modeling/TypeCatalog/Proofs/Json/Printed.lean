/-
Values that were printed are read back.

`Json.IsReadable` says of a value that its numbers are read back and that its
containers do not nest deeper than some number of levels.  Within the depth that
a reader allows, the text of such a value over several lines is read to the
value, with fuel for each of its characters and whatever ends a numeral behind it
(`Json.IsReadable.readsBack`).  So a decoder of a printed text decodes the value
(`Json.decodeText_pretty`).
-/
import TypeCatalog.Json.Decoder
import TypeCatalog.Proofs.Json.Tokens

namespace TypeCatalog

namespace Json

open Draft

/-- Numbers that are read back, in containers on at most some number of levels. -/
inductive IsReadable : Nat → Json → Prop where
  | null {n : Nat} : IsReadable n .null
  | bool {n : Nat} (b : Bool) : IsReadable n (.bool b)
  | integer {n : Nat} {i : Int} (h : IsNumeral (digits i) (.integer i)) : IsReadable n (.integer i)
  | real {n : Nat} {x : Binary64} (h : IsNumeral (x.render .data) (.real x)) :
    IsReadable n (.real x)
  | string {n : Nat} (s : String) : IsReadable n (.string s)
  | array {n : Nat} {items : List Json} (h : ∀ item ∈ items, IsReadable n item) :
    IsReadable (n + 1) (.array items)
  | object {n : Nat} {fields : List (String × Json)} (h : ∀ f ∈ fields, IsReadable n f.2) :
    IsReadable (n + 1) (.object fields)

section

variable {n m : Nat} {v : Json}

theorem IsReadable.mono (h : IsReadable n v) (hm : n ≤ m) : IsReadable m v := by
  induction h generalizing m with
  | null => exact .null
  | bool b => exact .bool b
  | integer h => exact .integer h
  | real h => exact .real h
  | string s => exact .string s
  | array _ ih =>
    obtain ⟨m, rfl⟩ : ∃ k, m = k + 1 := ⟨m - 1, by omega⟩
    exact .array fun item hitem => ih item hitem (by omega)
  | object _ ih =>
    obtain ⟨m, rfl⟩ : ∃ k, m = k + 1 := ⟨m - 1, by omega⟩
    exact .object fun f hf => ih f hf (by omega)

theorem isReadable_nat {i : Nat} (h : i < Nat.pow 2 64) : IsReadable n (.nat i) :=
  .integer (isNumeral_digits (Nat.le_pred_of_lt h) fun hneg => absurd hneg (by omega))

theorem isReadable_ofList {α : Type} {f : α → Json} {as : List α}
    (h : ∀ a ∈ as, IsReadable n (f a)) : IsReadable (n + 1) (.ofList f as) := by
  refine .array fun item hitem => ?_
  obtain ⟨a, ha, rfl⟩ := List.mem_map.mp hitem
  exact h a ha

theorem isReadable_ofOption {α : Type} {f : α → Json} {o : Option α}
    (h : ∀ a ∈ o, IsReadable n (f a)) : IsReadable n (.ofOption f o) := by
  cases o with
  | none => exact .null
  | some a => exact h a rfl

end

/-- The text of a value is read to the value. -/
def ReadsBack (levels : Nat) (v : Json) : Prop :=
  ∀ (fuel enclosing level : Nat) (rest : List Char), enclosing + levels ≤ greatestDepth →
    (prettyAt level v).length ≤ fuel → EndsNumeral rest →
    readValue fuel enclosing (prettyAt level v ++ rest) = (ofJson v, some rest)

variable {n fuel enclosing level outer : Nat} {v : Json} {text text' rest : List Char}

/-! ### Blanks -/

theorem skipBlanks_newLine (level : Nat) (text : List Char) :
    skipBlanks (newLine level ++ text) = skipBlanks text := by
  have hblank : ∀ c ∈ newLine level, isBlank c = true := by
    intro c hc
    rcases List.mem_cons.mp hc with rfl | hc
    · rfl
    · rw [List.eq_of_mem_replicate hc]
      rfl
  exact List.dropWhile_append_of_pos hblank

theorem skipBlanks_cons {c : Char} (hc : isBlank c = false) (text : List Char) :
    skipBlanks (c :: text) = c :: text :=
  List.dropWhile_cons_of_neg (by simp [hc])

theorem endsNumeral_cons {c : Char}
    (hc : c.isDigit = false ∧ c ≠ '.' ∧ c ≠ 'e' ∧ c ≠ 'E') : EndsNumeral (c :: rest) := by
  rintro d hd
  cases hd
  exact hc

theorem endsNumeral_newLine (level : Nat) (text : List Char) :
    EndsNumeral (newLine level ++ text) :=
  endsNumeral_cons (by decide)

theorem readValue_congr (h : skipBlanks text = skipBlanks text') :
    readValue fuel enclosing text = readValue fuel enclosing text' := by
  cases fuel <;> rw [readValue, readValue]
  rw [h]

theorem readItems_congr (h : skipBlanks text = skipBlanks text') :
    readItems fuel enclosing text = readItems fuel enclosing text' := by
  cases fuel <;> rw [readItems, readItems]
  rw [readValue_congr h]

theorem readFields_congr (h : skipBlanks text = skipBlanks text') :
    readFields fuel enclosing text = readFields fuel enclosing text' := by
  cases fuel <;> rw [readFields, readFields]
  rw [h]

/-! ### Values without parts -/

theorem readsBack_null : ReadsBack n .null := by
  intro fuel enclosing level rest _ hfuel _
  rw [prettyAt, scalar] at hfuel ⊢
  obtain ⟨fuel, rfl⟩ := Nat.exists_eq_add_of_lt hfuel
  rw [readValue]
  rfl

theorem readsBack_bool (b : Bool) : ReadsBack n (.bool b) := by
  intro fuel enclosing level rest _ hfuel _
  cases b
  all_goals
    rw [prettyAt, scalar] at hfuel ⊢
    obtain ⟨fuel, rfl⟩ := Nat.exists_eq_add_of_lt hfuel
    rw [readValue]
    rfl

theorem readsBack_string (s : String) : ReadsBack n (.string s) := by
  intro fuel enclosing level rest _ hfuel _
  have htext : prettyAt level (.string s) ++ rest
      = '"' :: (s.toList.flatMap escape ++ '"' :: rest) := by
    rw [prettyAt, scalar, quote, List.cons_append, List.append_assoc, List.singleton_append]
  rw [prettyAt, scalar, quote] at hfuel
  obtain ⟨fuel, rfl⟩ := Nat.exists_eq_add_of_lt hfuel
  rw [htext, readValue, skipBlanks_cons rfl]
  show ofScan .string (scanString (s.toList.flatMap escape ++ '"' :: rest)) = _
  rw [scanString_quote, ofJson]
  rfl

/-- The first character of a numeral is a sign or a digit, and no other character. -/
theorem IsNumeral.head_ne (h : IsNumeral text v) :
    ∃ c more, text = c :: more ∧ (c = '-' ∨ c.isDigit = true) ∧
      ∀ d : Char, d ≠ '-' → d.isDigit = false → c ≠ d := by
  obtain ⟨c, more, rfl, hc⟩ := h.head
  refine ⟨c, more, rfl, hc, ?_⟩
  rintro d hd hdigit rfl
  rcases hc with rfl | hc
  · exact hd rfl
  · rw [hdigit] at hc
    cases hc

theorem isBlank_eq_false {c : Char}
    (hc : ∀ d : Char, d ≠ '-' → d.isDigit = false → c ≠ d) : isBlank c = false := by
  have hspace := hc ' ' (by decide) (by decide)
  have hline := hc '\n' (by decide) (by decide)
  have htab := hc '\t' (by decide) (by decide)
  have hreturn := hc '\r' (by decide) (by decide)
  simp [isBlank, hspace, hline, htab, hreturn]

theorem readsBack_numeral (hv : ∀ level, prettyAt level v = text) (h : IsNumeral text v) :
    ReadsBack n v := by
  intro fuel enclosing level rest _ hfuel hr
  have hscan := h.scan rest hr
  rw [hv] at hfuel ⊢
  obtain ⟨c, more, rfl, hc, hne⟩ := h.head_ne
  obtain ⟨fuel, rfl⟩ := Nat.exists_eq_add_of_lt hfuel
  rw [List.cons_append] at hscan ⊢
  rw [readValue, skipBlanks_cons (isBlank_eq_false hne)]
  dsimp only
  rw [if_neg (hne 'n' (by decide) (by decide)), if_neg (hne 't' (by decide) (by decide)),
    if_neg (hne 'f' (by decide) (by decide)), if_neg (hne '"' (by decide) (by decide)), if_pos hc,
    hscan]
  rfl

/-! ### Containers -/

/-- No value begins with a blank or with the end of an array. -/
theorem exists_head_prettyAt (hv : IsReadable n v) (level : Nat) :
    ∃ c more, prettyAt level v = c :: more ∧ isBlank c = false ∧ c ≠ ']' := by
  cases hv with
  | null => exact ⟨_, _, by rw [prettyAt, scalar], rfl, by decide⟩
  | bool b => cases b <;> exact ⟨_, _, by rw [prettyAt, scalar], rfl, by decide⟩
  | @integer n i h =>
    obtain ⟨c, more, hd, -, hne⟩ := h.head_ne
    exact ⟨c, more, by rw [prettyAt, scalar, hd], isBlank_eq_false hne, hne ']' (by decide) rfl⟩
  | @real n x h =>
    obtain ⟨c, more, hd, -, hne⟩ := h.head_ne
    exact ⟨c, more, by rw [prettyAt, scalar, hd], isBlank_eq_false hne, hne ']' (by decide) rfl⟩
  | string s => exact ⟨_, _, by rw [prettyAt, scalar, quote], rfl, by decide⟩
  | @array n items _ => cases items <;> exact ⟨_, _, by rw [prettyAt], rfl, by decide⟩
  | @object n fields _ => cases fields <;> exact ⟨_, _, by rw [prettyAt], rfl, by decide⟩

/-- Reads what stands behind a member of a container: a comma and more members, or its end. -/
def readBehind {α : Type} (close : Char) (more : List Char → Block α) (text : List Char) :
    Block α :=
  match skipBlanks text with
  | [] => .stop (.same .unexpectedEnd)
  | c :: text =>
    if c = ',' then more text
    else if c = close then .closed text
    else .stop (.same .malformed)

theorem readBehind_comma {α : Type} (close : Char) (more : List Char → Block α)
    (text : List Char) : readBehind close more (',' :: text) = more text := by
  rw [readBehind, skipBlanks_cons rfl]
  exact if_pos rfl

theorem readBehind_close {α : Type} {close : Char} (hc : isBlank close = false ∧ close ≠ ',')
    (more : List Char → Block α) (outer : Nat) (rest : List Char) :
    readBehind close more (newLine outer ++ close :: rest) = .closed rest := by
  rw [readBehind, skipBlanks_newLine, skipBlanks_cons hc.1]
  exact (if_neg hc.2).trans (if_pos rfl)

/-- An item is read, up to what stands behind it. -/
theorem readItems_append {item : Json} (hitem : ReadsBack n item)
    (hdepth : enclosing + n ≤ greatestDepth) (hfuel : (prettyAt level item).length ≤ fuel)
    (hr : EndsNumeral rest) :
    readItems (fuel + 1) enclosing (prettyAt level item ++ rest)
      = .cons (ofJson item) (readBehind ']' (readItems fuel enclosing) rest) := by
  rw [readItems, hitem fuel enclosing level rest hdepth hfuel hr]
  rfl

/-- Items are read one after the other. -/
theorem readItems_pretty {item : Json} {items : List Json}
    (hall : ∀ v ∈ item :: items, ReadsBack n v) (hdepth : enclosing + n ≤ greatestDepth)
    (hfuel : (prettyAt level item).length + (prettyItems level items).length < fuel) :
    readItems fuel enclosing
        (prettyAt level item ++ (prettyItems level items ++ (newLine outer ++ ']' :: rest)))
      = ⟨ofJson item :: ofItems items, none, some rest⟩ := by
  have hitem : ReadsBack n item := hall item List.mem_cons_self
  induction items generalizing item fuel with
  | nil =>
    obtain ⟨fuel, rfl⟩ : ∃ f, fuel = f + 1 := ⟨fuel - 1, by omega⟩
    rw [prettyItems, List.nil_append, readItems_append hitem hdepth (by omega)
      (endsNumeral_newLine _ _), readBehind_close (by decide)]
    rfl
  | cons item' items ih =>
    obtain ⟨fuel, rfl⟩ : ∃ f, fuel = f + 1 := ⟨fuel - 1, by omega⟩
    -- what stands behind the comma and its line break, as one text
    obtain ⟨more, hmore⟩ : ∃ more, prettyAt level item'
        ++ (prettyItems level items ++ (newLine outer ++ ']' :: rest)) = more := ⟨_, rfl⟩
    have htext : prettyItems level (item' :: items) ++ (newLine outer ++ ']' :: rest)
        = ',' :: (newLine level ++ more) := by
      rw [prettyItems, ← hmore, List.cons_append, List.append_assoc, List.append_assoc]
    rw [prettyItems, List.length_cons, List.length_append, List.length_append] at hfuel
    have hrest : readItems fuel enclosing more
        = ⟨ofJson item' :: ofItems items, none, some rest⟩ :=
      hmore ▸ ih (fun v hv => hall v (List.mem_cons_of_mem item hv)) (by omega)
        (hall item' (List.mem_cons_of_mem item List.mem_cons_self))
    rw [htext, readItems_append hitem hdepth (by omega) (endsNumeral_cons (by decide)),
      readBehind_comma, readItems_congr (skipBlanks_newLine level more), hrest]
    rfl

/-- A field is read in two steps, up to what stands behind its value. -/
theorem readFields_quote {value : Json} (hv : ReadsBack n value) (name : String)
    (hdepth : enclosing + n ≤ greatestDepth) (hfuel : (prettyAt level value).length ≤ fuel)
    (hr : EndsNumeral rest) :
    readFields (fuel + 2) enclosing (quote name ++ ':' :: ' ' :: (prettyAt level value ++ rest))
      = .cons (.ok name, ofJson value) (readBehind '}' (readFields fuel enclosing) rest) := by
  have hvalue := hv fuel enclosing level rest hdepth hfuel hr
  have hblank : skipBlanks (' ' :: (prettyAt level value ++ rest))
      = skipBlanks (prettyAt level value ++ rest) := rfl
  rw [quote, List.cons_append, List.append_assoc, List.singleton_append, readFields,
    skipBlanks_cons rfl]
  dsimp only
  rw [if_pos rfl, scanString_quote]
  dsimp only
  rw [readField, skipBlanks_cons rfl]
  dsimp only
  rw [if_pos rfl, readValue_congr hblank, hvalue]
  rfl

/-- Fields are read one after the other. -/
theorem readFields_pretty {name : String} {value : Json} {fields : List (String × Json)}
    (hall : ∀ f ∈ (name, value) :: fields, ReadsBack n f.2)
    (hdepth : enclosing + n ≤ greatestDepth)
    (hfuel : (prettyAt level value).length + (prettyFields level fields).length + 2 ≤ fuel) :
    readFields fuel enclosing
        (quote name ++ ':' :: ' ' :: (prettyAt level value
          ++ (prettyFields level fields ++ (newLine outer ++ '}' :: rest))))
      = ⟨(.ok name, ofJson value) :: ofFields fields, none, some rest⟩ := by
  have hvalue : ReadsBack n value := hall (name, value) List.mem_cons_self
  induction fields generalizing name value fuel with
  | nil =>
    obtain ⟨fuel, rfl⟩ : ∃ f, fuel = f + 2 := ⟨fuel - 2, by omega⟩
    rw [prettyFields, List.nil_append, readFields_quote hvalue name hdepth (by omega)
      (endsNumeral_newLine _ _), readBehind_close (by decide)]
    rfl
  | cons field fields ih =>
    obtain ⟨name', value'⟩ := field
    obtain ⟨fuel, rfl⟩ : ∃ f, fuel = f + 2 := ⟨fuel - 2, by omega⟩
    obtain ⟨more, hmore⟩ : ∃ more, quote name' ++ ':' :: ' ' :: (prettyAt level value'
        ++ (prettyFields level fields ++ (newLine outer ++ '}' :: rest))) = more := ⟨_, rfl⟩
    have htext : prettyFields level ((name', value') :: fields) ++ (newLine outer ++ '}' :: rest)
        = ',' :: (newLine level ++ more) := by
      rw [prettyFields, ← hmore]
      simp only [List.cons_append, List.append_assoc]
    have hfuel' :
        (prettyAt level value').length + (prettyFields level fields).length + 2 ≤ fuel := by
      rw [prettyFields] at hfuel
      simp only [List.length_cons, List.length_append] at hfuel
      omega
    have hrest : readFields fuel enclosing more
        = ⟨(.ok name', ofJson value') :: ofFields fields, none, some rest⟩ :=
      hmore ▸ ih (fun f hf => hall f (List.mem_cons_of_mem _ hf)) hfuel'
        (hall (name', value') (List.mem_cons_of_mem _ List.mem_cons_self))
    rw [htext, readFields_quote hvalue name hdepth (by omega) (endsNumeral_cons (by decide)),
      readBehind_comma, readFields_congr (skipBlanks_newLine level more), hrest]
    rfl

theorem readValue_bracket (text : List Char) :
    readValue (fuel + 1) enclosing ('[' :: text) =
      let block := match skipBlanks text with
        | [] => Block.stop (.same .unexpectedEnd)
        | d :: rest => if d = ']' then .closed rest else readItems fuel (enclosing + 1) (d :: rest)
      (atDepth enclosing (.array block.members block.ending), block.rest) := by
  rw [readValue, skipBlanks_cons rfl]
  rfl

theorem readValue_brace (text : List Char) :
    readValue (fuel + 1) enclosing ('{' :: text) =
      let block := match skipBlanks text with
        | [] => Block.stop (.same .unexpectedEnd)
        | d :: rest => if d = '}' then .closed rest else readFields fuel (enclosing + 1) (d :: rest)
      (atDepth enclosing (.object block.members block.ending), block.rest) := by
  rw [readValue, skipBlanks_cons rfl]
  rfl

theorem readsBack_array {items : List Json} (hitems : ∀ item ∈ items, IsReadable n item)
    (hall : ∀ item ∈ items, ReadsBack n item) : ReadsBack (n + 1) (.array items) := by
  intro fuel enclosing level rest hdepth hfuel _
  have hshallow : ∀ container, atDepth enclosing container = container :=
    fun container => if_pos (by omega)
  cases items with
  | nil =>
    rw [prettyAt] at hfuel ⊢
    obtain ⟨fuel, rfl⟩ := Nat.exists_eq_add_of_lt hfuel
    rw [List.cons_append, readValue_bracket]
    show (atDepth enclosing (.array [] none), some rest) = _
    rw [hshallow, ofJson, ofItems]
  | cons item items =>
    rw [prettyAt] at hfuel ⊢
    simp only [List.length_cons, List.length_append] at hfuel
    obtain ⟨fuel, rfl⟩ : ∃ f, fuel = f + 1 := ⟨fuel - 1, by omega⟩
    obtain ⟨c, more, hhead, hblank, hc⟩ :=
      exists_head_prettyAt (hitems item List.mem_cons_self) (level + 1)
    have hread : readItems fuel (enclosing + 1) (prettyAt (level + 1) item
        ++ (prettyItems (level + 1) items ++ (newLine level ++ ']' :: rest)))
          = ⟨ofJson item :: ofItems items, none, some rest⟩ :=
      readItems_pretty hall (by omega) (by omega)
    rw [hhead, List.cons_append] at hread
    simp only [List.cons_append, List.append_assoc, List.nil_append]
    rw [readValue_bracket, skipBlanks_newLine, hhead, List.cons_append, skipBlanks_cons hblank]
    dsimp only
    rw [if_neg hc, hread, hshallow]
    rfl

theorem readsBack_object {fields : List (String × Json)} (hall : ∀ f ∈ fields, ReadsBack n f.2) :
    ReadsBack (n + 1) (.object fields) := by
  intro fuel enclosing level rest hdepth hfuel _
  have hshallow : ∀ container, atDepth enclosing container = container :=
    fun container => if_pos (by omega)
  cases fields with
  | nil =>
    rw [prettyAt] at hfuel ⊢
    obtain ⟨fuel, rfl⟩ := Nat.exists_eq_add_of_lt hfuel
    rw [List.cons_append, readValue_brace]
    show (atDepth enclosing (.object [] none), some rest) = _
    rw [hshallow, ofJson, ofFields]
  | cons field fields =>
    obtain ⟨name, value⟩ := field
    rw [prettyAt] at hfuel ⊢
    simp only [List.length_cons, List.length_append] at hfuel
    obtain ⟨fuel, rfl⟩ : ∃ f, fuel = f + 1 := ⟨fuel - 1, by omega⟩
    have hread : readFields fuel (enclosing + 1) (quote name ++ ':' :: ' ' ::
        (prettyAt (level + 1) value
          ++ (prettyFields (level + 1) fields ++ (newLine level ++ '}' :: rest))))
          = ⟨(.ok name, ofJson value) :: ofFields fields, none, some rest⟩ :=
      readFields_pretty hall (by omega) (by omega)
    rw [quote, List.cons_append] at hread
    simp only [List.cons_append, List.append_assoc, List.nil_append]
    rw [readValue_brace, skipBlanks_newLine, quote, List.cons_append, skipBlanks_cons rfl]
    dsimp only
    rw [if_neg (by decide), hread, hshallow]
    rfl

/-- A value is read back within the depth that a reader allows. -/
theorem IsReadable.readsBack (hv : IsReadable n v) : ReadsBack n v := by
  induction hv with
  | null => exact readsBack_null
  | bool b => exact readsBack_bool b
  | integer h => exact readsBack_numeral (fun level => by rw [prettyAt, scalar]) h
  | real h => exact readsBack_numeral (fun level => by rw [prettyAt, scalar]) h
  | string s => exact readsBack_string s
  | array hitems ih => exact readsBack_array hitems ih
  | object _ ih => exact readsBack_object ih

/-! ### Documents -/

theorem ofChars_prettyAt (hv : IsReadable n v) (hn : n ≤ greatestDepth) :
    Document.ofChars (prettyAt 0 v) = ⟨ofJson v, false⟩ := by
  have hread := hv.readsBack (3 * (prettyAt 0 v).length + 3) 0 0 [] (by omega) (by omega) nofun
  rw [List.append_nil] at hread
  rw [Document.ofChars, hread]
  rfl

/-- A decoder of the text of a value decodes the value. -/
theorem decodeText_pretty {α : Type} (decoder : Decoder α) (hv : IsReadable n v)
    (hn : n ≤ greatestDepth) : decodeText decoder v.pretty = decoder .streamed (ofJson v) := by
  have hdocument : Document.read v.pretty = ⟨ofJson v, false⟩ := by
    rw [Document.read, pretty, String.toList_ofList, ofChars_prettyAt hv hn]
  rw [decodeText, hdocument]
  dsimp only
  cases decoder .streamed (ofJson v) <;> rfl

end Json

end TypeCatalog
