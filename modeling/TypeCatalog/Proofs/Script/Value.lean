/-
Values in a script are told by their texts.

The values of a record's fields are flags, counts, texts, edges, and lists and
records of such (`Script.IsValue`).  What a script writes for one of them says,
without its indentation, where it ends and which value it is
(`Script.IsValue.isTold`): the first character tells its kind (`Script.leading`),
and what follows is cut at characters that cannot stand before the cut.
-/
import TypeCatalog.Proofs.Identifier
import TypeCatalog.Proofs.Node.Faithful
import TypeCatalog.Proofs.Script.Lines
import TypeCatalog.Proofs.Script.Literal
import TypeCatalog.Script.Renderer

namespace TypeCatalog

namespace Script

open Step

/-! ### Texts that are cut alike -/

section

variable {α : Type} {x y r r' : List Char} {c : Char}

/-- A text is cut where the characters of a sort end. -/
theorem append_inj_of_sort {p : Char → Bool} (hx : ∀ c ∈ x, p c = true) (hy : ∀ c ∈ y, p c = true)
    (hr : ∀ c ∈ r.head?, p c = false) (hr' : ∀ c ∈ r'.head?, p c = false)
    (h : x ++ r = y ++ r') : x = y ∧ r = r' := by
  have hnone : ∀ {r : List Char}, (∀ c ∈ r.head?, p c = false) → r.takeWhile p = [] := by
    intro r hr
    cases r with
    | nil => rfl
    | cons c r => rw [List.takeWhile_cons, hr c rfl, if_neg Bool.false_ne_true]
  have htake := congrArg (List.takeWhile p) h
  rw [List.takeWhile_append_of_pos hx, List.takeWhile_append_of_pos hy, hnone hr, hnone hr',
    List.append_nil, List.append_nil] at htake
  subst htake
  exact ⟨rfl, List.append_cancel_left h⟩

/-- A text is cut at the first of some character. -/
theorem append_cons_inj (hx : c ∉ x) (hy : c ∉ y) (h : x ++ c :: r = y ++ c :: r') :
    x = y ∧ r = r' := by
  have hsort : ∀ {z : List Char}, c ∉ z → ∀ d ∈ z, (d != c) = true := by
    intro z hz d hd
    exact bne_iff_ne.mpr fun hdc => hz (hdc ▸ hd)
  have hcut := append_inj_of_sort (hsort hx) (hsort hy) (by simp) (by simp) h
  exact ⟨hcut.1, (List.cons.inj hcut.2).2⟩

/-- A number is cut where its digits end. -/
theorem digits_append_inj {n n' : Nat} (hr : ∀ c ∈ r.head?, c.isDigit = false)
    (hr' : ∀ c ∈ r'.head?, c.isDigit = false)
    (h : Nat.toDigits 10 n ++ r = Nat.toDigits 10 n' ++ r') : n = n' ∧ r = r' := by
  obtain ⟨hdigits, hrest⟩ := append_inj_of_sort (fun c => Json.isDigit_of_mem_toDigits)
    (fun c => Json.isDigit_of_mem_toDigits) hr hr' h
  have hvalue := congrArg (Nat.ofDigitChars 10 · 0) hdigits
  simp only [Nat.ofDigitChars_ten_toDigits] at hvalue
  exact ⟨hvalue, hrest⟩

/-- A list is told by the texts of its items if each of them is, and none of them is
taken for what follows the list. -/
theorem flatMap_append_inj {f : α → List Char} {as as' : List α} (stops : List Char → Prop)
    (hf : ∀ a ∈ as, ∀ a' ∈ as', ∀ r r', f a ++ r = f a' ++ r' → a = a' ∧ r = r')
    (hgoes : ∀ a ∈ as, ∀ r, ¬ stops (f a ++ r)) (hgoes' : ∀ a ∈ as', ∀ r, ¬ stops (f a ++ r))
    (hr : stops r) (hr' : stops r') (h : as.flatMap f ++ r = as'.flatMap f ++ r') :
    as = as' ∧ r = r' := by
  -- where one list ends and the other does not, what follows would both stop and go on
  induction as generalizing as' with
  | nil =>
    cases as' with
    | nil => exact ⟨rfl, h⟩
    | cons a' as' =>
      rw [List.flatMap_nil, List.nil_append, List.flatMap_cons, List.append_assoc] at h
      exact absurd (h ▸ hr) (hgoes' a' List.mem_cons_self _)
  | cons a as ih =>
    cases as' with
    | nil =>
      rw [List.flatMap_nil, List.nil_append, List.flatMap_cons, List.append_assoc] at h
      exact absurd (h ▸ hr') (hgoes a List.mem_cons_self _)
    | cons a' as' =>
      rw [List.flatMap_cons, List.flatMap_cons, List.append_assoc, List.append_assoc] at h
      obtain ⟨rfl, hrest⟩ := hf a List.mem_cons_self a' List.mem_cons_self _ _ h
      obtain ⟨rfl, hr⟩ := ih (fun b hb b' hb' => hf b (List.mem_cons_of_mem a hb) b'
          (List.mem_cons_of_mem _ hb')) (fun b hb => hgoes b (List.mem_cons_of_mem a hb))
        (fun b hb => hgoes' b (List.mem_cons_of_mem _ hb)) hrest
      exact ⟨rfl, hr⟩

/-- No name of a primitive type begins another one. -/
theorem intrinsic_append_inj {k k' : Intrinsic}
    (h : k.name.toList ++ r = k'.name.toList ++ r') : k = k' ∧ r = r' := by
  -- of two different names one has another character at some place that both have
  cases k <;> cases k' <;> simp [Intrinsic.name] at h <;> simp [h]

end

/-! ### Values and their texts -/

/-- The values that the fields of records have. -/
inductive IsValue : Json → Prop where
  | flag (b : Bool) : IsValue (.bool b)
  | count (n : Nat) : IsValue (.nat n)
  | text (s : String) : IsValue (.string s)
  | list {items : List Json} (hitems : ∀ item ∈ items, IsValue item) : IsValue (.array items)
  | edge (r : TypeRef) : IsValue r.toJson
  | record {fields : List (String × Json)} (hlength : 2 ≤ fields.length)
    (hkeys : ∀ f ∈ fields, Identifier.isPlain f.1 = true) (hvalues : ∀ f ∈ fields, IsValue f.2) :
    IsValue (.object fields)

/-- The text of an edge. -/
def edgeText : TypeRef → List Char
  | .slot s => ['_', 'l', '['] ++ (Nat.toDigits 10 s.index ++ [']'])
  | .intrinsic k => ['_', 't', 'y', 'p', 'e', '_'] ++ k.name.toList

variable {newLine : NewLine} {v v' : Json} {items : List Json} {fields : List (String × Json)}

/-- The text of an item. -/
def itemText (newLine : NewLine) (item : Json) : List Char :=
  bare newLine (valueSteps item) ++ ',' :: newLine.chars

/-- The text of a property whose name is plain. -/
def fieldText (newLine : NewLine) (f : String × Json) : List Char :=
  f.1.toList ++ ':' :: ' ' :: itemText newLine f.2

theorem digits_nat (n : Nat) : Json.digits n = Nat.toDigits 10 n := by
  rw [Json.digits, if_neg (by omega), Int.natAbs_natCast]

theorem edgeExpression?_toJson (r : TypeRef) :
    ∃ fields, r.toJson = .object fields ∧ edgeExpression? fields = some (edgeText r) := by
  cases r with
  | intrinsic k => exact ⟨_, rfl, rfl⟩
  | slot s =>
    refine ⟨_, rfl, ?_⟩
    rw [SlotId.toJson, Json.nat, edgeExpression?, if_pos rfl, digits_nat]
    rfl

theorem edgeExpression?_eq_none (h : 2 ≤ fields.length) : edgeExpression? fields = none := by
  unfold edgeExpression?
  -- all edges have a single field
  split
  · simp at h
  · simp at h
  · simp at h
  · rfl

theorem valueSteps_edge (r : TypeRef) : valueSteps r.toJson = [.write (edgeText r)] := by
  obtain ⟨fields, hfields, hedge⟩ := edgeExpression?_toJson r
  rw [hfields, valueSteps, hedge]

theorem valueSteps_record (h : 2 ≤ fields.length) : valueSteps (.object fields)
    = Step.text "\x7b" :: .newLine :: .indent :: (fieldSteps fields ++ [.dedent, Step.text "\x7d"]) := by
  have hne : fields.isEmpty = false := by
    cases fields with
    | nil => simp at h
    | cons f rest => rfl
  rw [valueSteps, edgeExpression?_eq_none h]
  simp only [hne, Bool.false_eq_true, if_false]

theorem bare_itemSteps (items : List Json) :
    bare newLine (itemSteps items) = items.flatMap (itemText newLine) := by
  induction items with
  | nil => rfl
  | cons item rest ih =>
    rw [itemSteps, bare_append, bare_cons, bare_cons, ih, List.flatMap_cons, itemText]
    simp [Step.bare, Step.text]

theorem propertyKey_of_isPlain {key : String} (h : Identifier.isPlain key = true) :
    propertyKey key = Step.text key :=
  if_pos h

theorem bare_fieldSteps (hkeys : ∀ f ∈ fields, Identifier.isPlain f.1 = true) :
    bare newLine (fieldSteps fields) = fields.flatMap (fieldText newLine) := by
  induction fields with
  | nil => rfl
  | cons f rest ih =>
    obtain ⟨key, value⟩ := f
    obtain ⟨hkey, hrest⟩ := List.forall_mem_cons.mp hkeys
    rw [fieldSteps, propertyKey_of_isPlain hkey, bare_cons, bare_cons, bare_append, bare_cons,
      bare_cons, ih hrest, List.flatMap_cons, fieldText, itemText]
    simp [Step.bare, Step.text]

theorem bare_list (hne : items ≠ []) : bare newLine (valueSteps (.array items))
    = '[' :: (newLine.chars ++ (items.flatMap (itemText newLine) ++ [']'])) := by
  cases items with
  | nil => exact absurd rfl hne
  | cons item rest =>
    rw [valueSteps, ← bare_itemSteps]
    simp [Step.bare, Step.text]

theorem bare_record (hlength : 2 ≤ fields.length)
    (hkeys : ∀ f ∈ fields, Identifier.isPlain f.1 = true) :
    bare newLine (valueSteps (.object fields))
      = '\x7b' :: (newLine.chars ++ (fields.flatMap (fieldText newLine) ++ ['\x7d'])) := by
  rw [valueSteps_record hlength, ← bare_fieldSteps hkeys]
  simp [Step.bare, Step.text]

/-! ### Values keep to lines -/

theorem newline_notMem_digits (n : Nat) : '\n' ∉ Nat.toDigits 10 n :=
  fun h => absurd (Json.isDigit_of_mem_toDigits h) (by decide)

theorem writes_digits (n : Nat) (before : Bool) :
    Writes newLine before [.write (Nat.toDigits 10 n)] false := by
  refine .write ⟨Nat.toDigits_ne_nil, newline_notMem_digits n, fun _ h => ?_⟩
  exact absurd (Json.isDigit_of_mem_toDigits (List.mem_of_mem_head? h)) (by decide)

theorem writes_literal (s : String) (before : Bool) :
    Writes newLine before [Step.literal s] false :=
  .write ⟨List.cons_ne_nil _ _, newline_notMem_of_allInert (allInert_quote s.toList),
    fun _ => by simp [quote]⟩

theorem writes_edge (r : TypeRef) (before : Bool) :
    Writes newLine before [.write (edgeText r)] false := by
  cases r with
  | intrinsic k =>
    have hphrase : IsPhrase true (edgeText (.intrinsic k)) := by cases k <;> decide
    exact .write (hphrase.anywhere before)
  | slot s =>
    refine .write ⟨?_, ?_, fun _ => ?_⟩
    · simp [edgeText]
    · simp [edgeText, newline_notMem_digits]
    · simp [edgeText]

theorem writes_items (h : ∀ item ∈ items, Writes newLine true (valueSteps item) false) :
    Writes newLine true (itemSteps items) true := by
  induction items with
  | nil => exact .nil
  | cons item rest ih =>
    obtain ⟨hitem, hrest⟩ := List.forall_mem_cons.mp h
    have hcomma : Writes newLine false [Step.text ","] false :=
      .write (by decide)
    rw [itemSteps]
    exact hitem.append (hcomma.cons (Writes.close.cons (ih hrest)))

theorem writes_fields (hkeys : ∀ f ∈ fields, Identifier.isPlain f.1 = true)
    (h : ∀ f ∈ fields, Writes newLine false (valueSteps f.2) false) :
    Writes newLine true (fieldSteps fields) true := by
  induction fields with
  | nil => exact .nil
  | cons f rest ih =>
    obtain ⟨key, value⟩ := f
    obtain ⟨hkey, hkeys⟩ := List.forall_mem_cons.mp hkeys
    obtain ⟨hvalue, hrest⟩ := List.forall_mem_cons.mp h
    have hname : Writes newLine true [Step.text key] false := by
      refine .write ⟨Identifier.toList_ne_nil_of_isPlain hkey, ?_, fun _ hhead => ?_⟩
      · exact Identifier.notMem_of_isPlain hkey (by decide)
      · exact Identifier.notMem_of_isPlain hkey (by decide) (List.mem_of_mem_head? hhead)
    have hcolon : Writes newLine false [Step.text ": "] false :=
      .write (by decide)
    have hcomma : Writes newLine false [Step.text ","] false :=
      .write (by decide)
    rw [fieldSteps, propertyKey_of_isPlain hkey]
    exact hname.cons (hcolon.cons (hvalue.append (hcomma.cons (Writes.close.cons
      (ih hkeys hrest)))))

/-- Opening a bracket, the lines inside it, and closing it. -/
theorem writes_block {opening closing : String} {ss : List Step} {before : Bool}
    (hopen : IsPhrase before opening.toList) (hss : Writes newLine true ss true)
    (hclose : IsPhrase true closing.toList) : Writes newLine before
      (Step.text opening :: .newLine :: .indent :: (ss ++ [.dedent, Step.text closing])) false :=
  (Writes.write hopen).cons (Writes.close.cons (Writes.indent.cons
    (hss.append (Writes.dedent.cons (Writes.write hclose)))))

theorem IsValue.writes (hv : IsValue v) (before : Bool) :
    Writes newLine before (valueSteps v) false := by
  induction hv generalizing before with
  | flag b =>
    cases b
    all_goals exact .write (.anywhere (by decide) before)
  | count n =>
    rw [Json.nat, valueSteps, digits_nat]
    exact writes_digits n before
  | text s =>
    rw [valueSteps]
    exact writes_literal s before
  | @list items hitems ih =>
    cases items with
    | nil => exact .write (.anywhere (by decide) before)
    | cons item rest =>
      rw [valueSteps]
      refine writes_block (.anywhere (by decide) before) ?_ (by decide)
      exact writes_items fun i hi => ih i hi true
  | edge r =>
    rw [valueSteps_edge]
    exact writes_edge r before
  | record hlength hkeys hvalues ih =>
    rw [valueSteps_record hlength]
    refine writes_block (.anywhere (by decide) before) ?_ (by decide)
    exact writes_fields hkeys fun f hf => ih f hf false

/-! ### Values are told by their texts -/

/-- The character that tells the kind of a value; all digits tell the same. -/
def leading : Json → Char
  | .null => 'n'
  | .bool true => 't'
  | .bool false => 'f'
  | .integer _ => '0'
  | .real _ => '0'
  | .string _ => '\''
  | .array _ => '['
  | .object fields => if (edgeExpression? fields).isSome then '_' else '\x7b'

theorem leading_edge (r : TypeRef) : leading r.toJson = '_' := by
  obtain ⟨fields, hfields, hedge⟩ := edgeExpression?_toJson r
  rw [hfields, leading, hedge]
  rfl

theorem leading_record (h : 2 ≤ fields.length) : leading (.object fields) = '\x7b' := by
  rw [leading, edgeExpression?_eq_none h]
  rfl

/-- The text of a value begins with the character that tells its kind. -/
theorem IsValue.exists_head (hv : IsValue v) (newLine : NewLine) :
    ∃ c rest, bare newLine (valueSteps v) = c :: rest ∧
      (if c.isDigit then '0' else c) = leading v := by
  cases hv with
  | flag b => cases b <;> exact ⟨_, _, rfl, by decide⟩
  | count n =>
    obtain ⟨c, ds, hc, hdigit⟩ := Json.exists_digit_cons n
    refine ⟨c, ds, ?_, if_pos hdigit⟩
    rw [Json.nat, valueSteps, digits_nat, hc]
    simp [Step.bare]
  | text s =>
    rw [valueSteps]
    exact ⟨_, _, rfl, rfl⟩
  | @list items hitems =>
    by_cases hne : items = []
    · subst hne
      exact ⟨_, _, rfl, by decide⟩
    · exact ⟨_, _, bare_list hne, rfl⟩
  | edge r =>
    rw [valueSteps_edge, leading_edge]
    cases r <;> exact ⟨_, _, rfl, rfl⟩
  | record hlength hkeys hvalues =>
    rw [leading_record hlength]
    exact ⟨_, _, bare_record hlength hkeys, rfl⟩

theorem leading_eq_of_append_eq {r r' : List Char} (hv : IsValue v) (hv' : IsValue v')
    (h : bare newLine (valueSteps v) ++ r = bare newLine (valueSteps v') ++ r') :
    leading v = leading v' := by
  obtain ⟨c, rest, htext, hc⟩ := hv.exists_head newLine
  obtain ⟨c', rest', htext', hc'⟩ := hv'.exists_head newLine
  rw [htext, htext', List.cons_append, List.cons_append, List.cons.injEq] at h
  rw [← hc, ← hc', h.1]

/-- The kinds of values and their leading characters. -/
theorem IsValue.cases_leading (hv : IsValue v) :
    (∃ b, v = .bool b ∧ leading v = if b then 't' else 'f') ∨
    (∃ n, v = .nat n ∧ leading v = '0') ∨
    (∃ s, v = .string s ∧ leading v = '\'') ∨
    (∃ items, v = .array items ∧ leading v = '[' ∧ ∀ item ∈ items, IsValue item) ∨
    (∃ r : TypeRef, v = r.toJson ∧ leading v = '_') ∨
    ∃ fields, v = .object fields ∧ leading v = '\x7b' ∧ 2 ≤ fields.length ∧
      (∀ f ∈ fields, Identifier.isPlain f.1 = true) ∧ ∀ f ∈ fields, IsValue f.2 := by
  cases hv with
  | flag b => exact .inl ⟨b, rfl, by cases b <;> rfl⟩
  | count n => exact .inr (.inl ⟨n, rfl, rfl⟩)
  | text s => exact .inr (.inr (.inl ⟨s, rfl, rfl⟩))
  | list hitems => exact .inr (.inr (.inr (.inl ⟨_, rfl, rfl, hitems⟩)))
  | edge r => exact .inr (.inr (.inr (.inr (.inl ⟨r, rfl, leading_edge r⟩))))
  | record hlength hkeys hvalues =>
    exact .inr (.inr (.inr (.inr (.inr ⟨_, rfl, leading_record hlength, hlength, hkeys, hvalues⟩))))

/-- No value begins like the end of a list. -/
theorem IsValue.head?_ne (hv : IsValue v) (r : List Char) :
    (bare newLine (valueSteps v) ++ r).head? ≠ some ']' := by
  obtain ⟨c, rest, htext, hc⟩ := hv.exists_head newLine
  rw [htext, List.cons_append, List.head?_cons]
  intro h
  cases h
  have hleading : leading v = ']' := hc.symm
  obtain ⟨b, -, h⟩ | ⟨n, -, h⟩ | ⟨s, -, h⟩ | ⟨items, -, h, -⟩ | ⟨r, -, h⟩ | ⟨fields, -, h, -⟩ :=
    hv.cases_leading
  all_goals rw [hleading] at h
  · cases b <;> exact absurd h (by decide)
  all_goals exact absurd h (by decide)

theorem edge_append_inj {e e' : TypeRef} {r r' : List Char}
    (h : edgeText e ++ r = edgeText e' ++ r') : e = e' ∧ r = r' := by
  cases e with
  | intrinsic k =>
    cases e' with
    | intrinsic k' =>
      obtain ⟨rfl, hr⟩ := intrinsic_append_inj (by simpa [edgeText] using h)
      exact ⟨rfl, hr⟩
    | slot s' => simp [edgeText] at h
  | slot s =>
    cases e' with
    | intrinsic k' => simp [edgeText] at h
    | slot s' =>
      have hdigits : Nat.toDigits 10 s.index ++ ']' :: r = Nat.toDigits 10 s'.index ++ ']' :: r' := by
        simpa [edgeText] using h
      obtain ⟨hindex, hr⟩ := digits_append_inj (by simp) (by simp) hdigits
      exact ⟨congrArg (fun n => TypeRef.slot ⟨n⟩) hindex, (List.cons.inj hr).2⟩

/-- Some values are told by their texts from those that may stand in their places. -/
def IsTold (newLine : NewLine) (v : Json) : Prop :=
  ∀ (v' : Json) (r r' : List Char), IsValue v' → (∀ c ∈ r.head?, c.isDigit = false) →
    (∀ c ∈ r'.head?, c.isDigit = false) →
    bare newLine (valueSteps v) ++ r = bare newLine (valueSteps v') ++ r' → v = v' ∧ r = r'

theorem IsTold.item (hv : IsTold newLine v) (hv' : IsValue v') {r r' : List Char}
    (h : itemText newLine v ++ r = itemText newLine v' ++ r') : v = v' ∧ r = r' := by
  rw [itemText, itemText, List.append_assoc, List.append_assoc] at h
  obtain ⟨rfl, hrest⟩ := hv _ _ _ hv' (by simp) (by simp) h
  rw [List.cons_append, List.cons_append, List.cons.injEq] at hrest
  exact ⟨rfl, List.append_cancel_left hrest.2⟩

theorem IsTold.list (hitems : ∀ item ∈ items, IsValue item)
    (htold : ∀ item ∈ items, IsTold newLine item) {items' : List Json}
    (hitems' : ∀ item ∈ items', IsValue item) {r r' : List Char}
    (h : bare newLine (valueSteps (.array items)) ++ r
      = bare newLine (valueSteps (.array items')) ++ r') : items = items' ∧ r = r' := by
  have hempty : bare newLine (valueSteps (.array [])) = ['[', ']'] := rfl
  have hbracket : ∀ r r', ']' :: r ≠ newLine.chars ++ r' := by
    intro r r' h
    cases newLine <;> simp [NewLine.chars] at h
  have hgoes : ∀ {items : List Json}, (∀ item ∈ items, IsValue item) → ∀ item ∈ items, ∀ r,
      ¬ (itemText newLine item ++ r).head? = some ']' := by
    intro items hitems item hi r
    rw [itemText, List.append_assoc]
    exact (hitems item hi).head?_ne _
  -- the brackets of an empty list stand on one line, those of any other on two
  by_cases hne : items = []
  · by_cases hne' : items' = []
    · subst hne hne'
      exact ⟨rfl, List.append_cancel_left h⟩
    · subst hne
      rw [hempty, bare_list hne'] at h
      simp only [List.cons_append, List.nil_append, List.cons.injEq, true_and,
        List.append_assoc] at h
      exact absurd h (hbracket _ _)
  · by_cases hne' : items' = []
    · subst hne'
      rw [hempty, bare_list hne] at h
      simp only [List.cons_append, List.nil_append, List.cons.injEq, true_and,
        List.append_assoc] at h
      exact absurd h.symm (hbracket _ _)
    · rw [bare_list hne, bare_list hne'] at h
      simp only [List.cons_append, List.nil_append, List.cons.injEq, true_and,
        List.append_assoc, List.append_cancel_left_eq] at h
      obtain ⟨hsame, hr⟩ := flatMap_append_inj (fun text => text.head? = some ']')
        (fun item hi item' hi' r r' h => (htold item hi).item (hitems' item' hi') h)
        (hgoes hitems) (hgoes hitems') List.head?_cons List.head?_cons h
      exact ⟨hsame, (List.cons.inj hr).2⟩

theorem IsTold.record (hlength : 2 ≤ fields.length)
    (hkeys : ∀ f ∈ fields, Identifier.isPlain f.1 = true)
    (htold : ∀ f ∈ fields, IsTold newLine f.2) {fields' : List (String × Json)}
    (hlength' : 2 ≤ fields'.length) (hkeys' : ∀ f ∈ fields', Identifier.isPlain f.1 = true)
    (hvalues' : ∀ f ∈ fields', IsValue f.2) {r r' : List Char}
    (h : bare newLine (valueSteps (.object fields)) ++ r
      = bare newLine (valueSteps (.object fields')) ++ r') : fields = fields' ∧ r = r' := by
  have hgoes : ∀ {fields : List (String × Json)},
      (∀ f ∈ fields, Identifier.isPlain f.1 = true) → ∀ f ∈ fields, ∀ r,
        ¬ (fieldText newLine f ++ r).head? = some '\x7d' := by
    intro fields hkeys f hf r hhead
    cases hname : f.1.toList with
    | nil => exact Identifier.toList_ne_nil_of_isPlain (hkeys f hf) hname
    | cons c rest =>
      rw [fieldText, hname, List.cons_append, List.cons_append, List.head?_cons,
        Option.some.injEq] at hhead
      refine Identifier.notMem_of_isPlain (c := '\x7d') (hkeys f hf) (by decide) ?_
      rw [hname, hhead]
      exact List.mem_cons_self
  have hfield : ∀ f ∈ fields, ∀ f' ∈ fields', ∀ r r',
      fieldText newLine f ++ r = fieldText newLine f' ++ r' → f = f' ∧ r = r' := by
    intro f hf f' hf' r r' h
    rw [fieldText, fieldText, List.append_assoc, List.append_assoc] at h
    obtain ⟨hname, h⟩ := append_cons_inj (Identifier.notMem_of_isPlain (hkeys f hf) (by decide))
      (Identifier.notMem_of_isPlain (hkeys' f' hf') (by decide)) h
    obtain ⟨hvalue, hr⟩ := (htold f hf).item (hvalues' f' hf') (List.cons.inj h).2
    exact ⟨Prod.ext (String.toList_inj.mp hname) hvalue, hr⟩
  rw [bare_record hlength hkeys, bare_record hlength' hkeys'] at h
  simp only [List.cons_append, List.nil_append, List.cons.injEq, true_and, List.append_assoc,
    List.append_cancel_left_eq] at h
  obtain ⟨hsame, hr⟩ := flatMap_append_inj (fun text => text.head? = some '\x7d') hfield
    (hgoes hkeys) (hgoes hkeys') List.head?_cons List.head?_cons h
  exact ⟨hsame, (List.cons.inj hr).2⟩

/-- The text of a value says which value it is and where it ends. -/
theorem IsValue.isTold (hv : IsValue v) : IsTold newLine v := by
  induction hv with
  | flag b =>
    intro v' r r' hv' _ _ h
    have hlead : leading v' = if b then 't' else 'f' :=
      (leading_eq_of_append_eq (.flag b) hv' h).symm.trans (by cases b <;> rfl)
    obtain rfl : v' = .bool b := by
      cases b <;> simpa [hlead] using hv'.cases_leading
    exact ⟨rfl, List.append_cancel_left h⟩
  | count n =>
    intro v' r r' hv' hr hr' h
    have hlead : leading v' = '0' := (leading_eq_of_append_eq (.count n) hv' h).symm
    obtain ⟨n', rfl⟩ : ∃ n', v' = .nat n' := by simpa [hlead] using hv'.cases_leading
    simp only [Json.nat, valueSteps, digits_nat, bare_cons, bare_nil, Step.bare,
      List.append_nil] at h
    obtain ⟨rfl, hr⟩ := digits_append_inj hr hr' h
    exact ⟨rfl, hr⟩
  | text s =>
    intro v' r r' hv' _ _ h
    have hlead : leading v' = '\'' := (leading_eq_of_append_eq (.text s) hv' h).symm
    obtain ⟨s', rfl⟩ : ∃ s', v' = .string s' := by simpa [hlead] using hv'.cases_leading
    simp only [valueSteps, Step.literal, bare_cons, bare_nil, Step.bare, List.append_nil] at h
    obtain ⟨hs, hr⟩ := quote_append_inj h
    exact ⟨congrArg Json.string (String.toList_inj.mp hs), hr⟩
  | @list items hitems ih =>
    intro v' r r' hv' _ _ h
    have hlead : leading v' = '[' := (leading_eq_of_append_eq (.list hitems) hv' h).symm
    obtain ⟨items', rfl, hitems'⟩ : ∃ items', v' = .array items' ∧ ∀ i ∈ items', IsValue i := by
      simpa [hlead] using hv'.cases_leading
    obtain ⟨rfl, hr⟩ := IsTold.list hitems ih hitems' h
    exact ⟨rfl, hr⟩
  | edge e =>
    intro v' r r' hv' _ _ h
    have hlead : leading v' = '_' :=
      (leading_eq_of_append_eq (.edge e) hv' h).symm.trans (leading_edge e)
    obtain ⟨e', rfl⟩ : ∃ e' : TypeRef, v' = e'.toJson := by simpa [hlead] using hv'.cases_leading
    simp only [valueSteps_edge, bare_cons, bare_nil, Step.bare, List.append_nil] at h
    obtain ⟨rfl, hr⟩ := edge_append_inj h
    exact ⟨rfl, hr⟩
  | @record fields hlength hkeys hvalues ih =>
    intro v' r r' hv' _ _ h
    have hlead : leading v' = '\x7b' :=
      (leading_eq_of_append_eq (.record hlength hkeys hvalues) hv' h).symm.trans
        (leading_record hlength)
    obtain ⟨fields', rfl, hlength', hkeys', hvalues'⟩ : ∃ fields', v' = .object fields' ∧
        2 ≤ fields'.length ∧ (∀ f ∈ fields', Identifier.isPlain f.1 = true) ∧
          ∀ f ∈ fields', IsValue f.2 := by
      simpa [hlead] using hv'.cases_leading
    obtain ⟨rfl, hr⟩ := IsTold.record hlength hkeys ih hlength' hkeys' hvalues' h
    exact ⟨rfl, hr⟩

end Script

end TypeCatalog
