/-
Lines of a script end where its writer ends them.

Whatever the names in a table are made of, a script writes none of their characters
that end a line or control anything: literals put escapes in their place
(`Script.allInert_quote`), and all that stands outside literals is made of
fixed texts, of digits and of the names of fields.  A writer that is given such texts
alone keeps its lines apart (`Script.Writer.isInert_steps`), so every line end of a
script is that of a step, and the two ways of ending lines lead to scripts that
differ in nothing else (`Script.render_breaks`).
-/
import TypeCatalog.Proofs.Script.Table

namespace TypeCatalog

namespace Script

open Step

/-- A line feed with a carriage return before it; every other character by itself. -/
def withReturn (c : Char) : List Char := if c = '\n' then ['\r', '\n'] else [c]

/-- A step that writes inert characters alone. -/
def Step.IsInert (s : Step) : Prop := ∀ text, s = .write text → AllInert text

/-! ### Texts without line ends -/

section

variable {text : List Char}

theorem flatMap_withReturn (h : AllInert text) : text.flatMap withReturn = text := by
  have hsame : ∀ c ∈ text, withReturn c = [c] := fun c hc => if_neg (h c hc).ne_newline
  rw [List.flatMap_congr hsame, List.flatMap_singleton']

theorem allInert_digits (n : Nat) : AllInert (Nat.toDigits 10 n) :=
  fun _ hc => isInert_of_isDigit (Json.isDigit_of_mem_toDigits hc)

end

/-! ### What a writer makes of inert texts -/

namespace Writer

variable {w : Writer} {s : Step} {ss : List Step}

/-- A writer that holds inert characters alone. -/
structure IsInert (w : Writer) : Prop where
  closed : ∀ line ∈ w.closed, AllInert line
  opened : AllInert w.opened

theorem isInert_empty : empty.IsInert :=
  ⟨fun _ hline => absurd hline List.not_mem_nil, fun _ hc => absurd hc List.not_mem_nil⟩

theorem allInert_indentation (level : Nat) : AllInert (indentation level) := by
  intro c hc
  rw [List.eq_of_mem_replicate hc]
  decide

/-- A step keeps a writer inert; it closes a line exactly if it is a line end. -/
theorem IsInert.step (hw : w.IsInert) (hs : s.IsInert) : (w.step s).IsInert := by
  cases s with
  | write text =>
    have htext := hs text rfl
    unfold Writer.step
    dsimp only
    split
    · exact hw
    split
    · -- the first text of a line stands behind its indentation
      exact ⟨hw.closed, (allInert_indentation _).append htext⟩
    · exact ⟨hw.closed, hw.opened.append htext⟩
  | newLine =>
    refine ⟨List.forall_mem_append.mpr ⟨hw.closed, List.forall_mem_singleton.mpr hw.opened⟩, ?_⟩
    exact fun _ hc => absurd hc List.not_mem_nil
  | indent => exact ⟨hw.closed, hw.opened⟩
  | dedent => exact ⟨hw.closed, hw.opened⟩

theorem isInert_steps (hw : w.IsInert) (hss : ∀ s ∈ ss, s.IsInert) : (w.steps ss).IsInert := by
  induction ss generalizing w with
  | nil => exact hw
  | cons s ss ih =>
    obtain ⟨hs, hss⟩ := List.forall_mem_cons.mp hss
    exact ih (hw.step hs) hss

/-- Lines are closed by line ends alone, each by one. -/
theorem length_closed_steps (w : Writer) (ss : List Step) :
    (w.steps ss).closed.length = w.closed.length + ss.count .newLine := by
  induction ss generalizing w with
  | nil => rfl
  | cons s ss ih =>
    have hrest : (w.steps (s :: ss)).closed.length = _ := ih (w.step s)
    rw [hrest, List.count_cons]
    cases s with
    | write text =>
      unfold Writer.step
      dsimp only
      split
      · rfl
      split <;> rfl
    | newLine =>
      simp only [Writer.step, List.length_append, List.length_singleton, beq_self_eq_true, if_true]
      omega
    | indent => rfl
    | dedent => rfl

/-- Line feeds stand where lines are closed. -/
theorem count_newline_chars (hw : w.IsInert) : (w.chars .lf).count '\n' = w.closed.length := by
  have hlines : ∀ lines : List (List Char), (∀ line ∈ lines, AllInert line) →
      (lines.flatMap (· ++ NewLine.lf.chars)).count '\n' = lines.length := by
    intro lines hlines
    induction lines with
    | nil => rfl
    | cons line lines ih =>
      obtain ⟨hline, hlines⟩ := List.forall_mem_cons.mp hlines
      have hnone := List.count_eq_zero.mpr (newline_notMem_of_allInert hline)
      rw [List.flatMap_cons, List.count_append, List.count_append, ih hlines, hnone,
        List.length_cons]
      simp [NewLine.chars, Nat.add_comm]
  rw [Writer.chars, List.count_append, hlines _ hw.closed,
    List.count_eq_zero.mpr (newline_notMem_of_allInert hw.opened), Nat.add_zero]

/-- The two ways of ending lines differ at the ends of lines alone. -/
theorem chars_crlf (hw : w.IsInert) : w.chars .crlf = (w.chars .lf).flatMap withReturn := by
  have hlines : ∀ lines : List (List Char), (∀ line ∈ lines, AllInert line) →
      (lines.flatMap (· ++ NewLine.lf.chars)).flatMap withReturn
        = lines.flatMap (· ++ NewLine.crlf.chars) := by
    intro lines hlines
    rw [List.flatMap_assoc]
    refine List.flatMap_congr fun line hline => ?_
    rw [List.flatMap_append, flatMap_withReturn (hlines line hline)]
    rfl
  rw [Writer.chars, Writer.chars, List.flatMap_append, hlines _ hw.closed,
    flatMap_withReturn hw.opened]

theorem isInert_of_mem_chars (hw : w.IsInert) {c : Char} (hc : c ∈ w.chars .lf) :
    c = '\n' ∨ Script.IsInert c := by
  rw [Writer.chars, List.mem_append, List.mem_flatMap] at hc
  obtain ⟨line, hline, hc⟩ | hc := hc
  · rcases List.mem_append.mp hc with hc | hc
    · exact .inr (hw.closed line hline c hc)
    · exact .inl (List.mem_singleton.mp hc)
  · exact .inr (hw.opened c hc)

end Writer

/-! ### The steps of a script are inert -/

section

variable {chars : List Char} {s : String} {ss ss' : List Step}

/-- Steps that write inert characters alone. -/
def AreInert (ss : List Step) : Prop := ∀ s ∈ ss, s.IsInert

theorem areInert_nil : AreInert [] := fun _ hs => absurd hs List.not_mem_nil

theorem AreInert.append (h : AreInert ss) (h' : AreInert ss') : AreInert (ss ++ ss') :=
  List.forall_mem_append.mpr ⟨h, h'⟩

theorem AreInert.flatMap {α : Type} {f : α → List Step} {as : List α}
    (h : ∀ a ∈ as, AreInert (f a)) : AreInert (as.flatMap f) :=
  List.forall_mem_flatMap.mpr h

theorem AreInert.write (hchars : AllInert chars) (h : AreInert ss) :
    AreInert (.write chars :: ss) := by
  refine List.forall_mem_cons.mpr ⟨?_, h⟩
  rintro _ ⟨⟩
  exact hchars

theorem AreInert.text (hs : AllInert s.toList) (h : AreInert ss) :
    AreInert (Step.text s :: ss) :=
  .write hs h

theorem AreInert.literal (s : String) (h : AreInert ss) : AreInert (Step.literal s :: ss) :=
  .write (allInert_quote _) h

theorem AreInert.newLine (h : AreInert ss) : AreInert (.newLine :: ss) :=
  List.forall_mem_cons.mpr ⟨nofun, h⟩

theorem AreInert.indent (h : AreInert ss) : AreInert (.indent :: ss) :=
  List.forall_mem_cons.mpr ⟨nofun, h⟩

theorem AreInert.dedent (h : AreInert ss) : AreInert (.dedent :: ss) :=
  List.forall_mem_cons.mpr ⟨nofun, h⟩

theorem areInert_line (hs : AllInert s.toList) : AreInert (line s) :=
  .text hs (.newLine areInert_nil)

/-- A line with a number between two fixed texts. -/
theorem areInert_numberLine {before after : String} (n : Nat)
    (hbefore : AllInert before.toList) (hafter : AllInert after.toList) :
    AreInert (line (before ++ toString n ++ after)) := by
  refine areInert_line ?_
  rw [String.toList_append, String.toList_append, toList_toString]
  exact (hbefore.append (allInert_digits n)).append hafter

theorem allInert_edgeText (r : TypeRef) : AllInert (edgeText r) := by
  cases r with
  | intrinsic k => cases k <;> decide
  | slot s =>
    have hopen : AllInert ['_', 'l', '['] := by decide
    have hclose : AllInert [']'] := by decide
    exact hopen.append ((allInert_digits _).append hclose)

theorem areInert_items {items : List Json} (h : ∀ item ∈ items, AreInert (valueSteps item)) :
    AreInert (itemSteps items) := by
  induction items with
  | nil => exact areInert_nil
  | cons item rest ih =>
    obtain ⟨hitem, hrest⟩ := List.forall_mem_cons.mp h
    rw [itemSteps]
    exact hitem.append (.text (by decide) (.newLine (ih hrest)))

theorem areInert_fields {fields : List (String × Json)}
    (hnames : ∀ f ∈ fields, AllInert f.1.toList)
    (h : ∀ f ∈ fields, AreInert (valueSteps f.2)) : AreInert (fieldSteps fields) := by
  induction fields with
  | nil => exact areInert_nil
  | cons f rest ih =>
    obtain ⟨key, value⟩ := f
    obtain ⟨hname, hnames⟩ := List.forall_mem_cons.mp hnames
    obtain ⟨hvalue, hrest⟩ := List.forall_mem_cons.mp h
    have hvalues : AreInert (Step.text ": " :: (valueSteps value ++ Step.text "," :: .newLine
        :: fieldSteps rest)) :=
      .text (by decide) (hvalue.append (.text (by decide) (.newLine (ih hnames hrest))))
    rw [fieldSteps, propertyKey]
    split
    · exact .text hname hvalues
    · exact .literal key hvalues

/-- Opening a bracket, the lines inside it, and closing it. -/
theorem areInert_block {opening closing : String} (hopen : AllInert opening.toList)
    (hss : AreInert ss) (hclose : AllInert closing.toList) : AreInert
      (Step.text opening :: .newLine :: .indent :: (ss ++ [.dedent, Step.text closing])) :=
  .text hopen (.newLine (.indent (hss.append (.dedent (.text hclose areInert_nil)))))

/-- The values of fields are written with inert characters, whatever texts are in them. -/
theorem IsDatum.areInert {v : Json} (hv : IsDatum v) : AreInert (valueSteps v) := by
  have hproperties : ∀ name ∈ propertyNames, AllInert name.toList := by decide
  induction hv with
  | flag b => cases b <;> exact .text (by decide) areInert_nil
  | count n =>
    rw [Json.nat, valueSteps, digits_nat]
    exact .write (allInert_digits n) areInert_nil
  | text s => exact .literal s areInert_nil
  | @list items _ ih =>
    cases items with
    | nil => exact .text (by decide) areInert_nil
    | cons item rest => exact areInert_block (by decide) (areInert_items ih) (by decide)
  | edge r =>
    rw [valueSteps_edge]
    exact .write (allInert_edgeText r) areInert_nil
  | record hlength hnames _ ih =>
    rw [valueSteps_record hlength]
    refine areInert_block (by decide) ?_ (by decide)
    exact areInert_fields (fun f hf => hproperties _ (hnames f hf)) ih

theorem areInert_node (n : TypeNode) : AreInert (nodeSteps n) := by
  have hnames : ∀ name ∈ "name" :: "kind" :: NodeKind.fieldNames, AllInert name.toList := by
    decide
  have hslot : AreInert (line ("_t = _l[" ++ toString n.slot.index ++ "];")) :=
    areInert_numberLine _ (by decide) (by decide)
  rw [nodeSteps, n.filter_fieldsOf_toJson]
  refine hslot.append (.flatMap fun f hf => ?_)
  have hname : AllInert ("_t." ++ f.1 ++ " = ").toList := by
    rw [String.toList_append, String.toList_append]
    exact (AllInert.append (by decide) (hnames _ (n.within_details.mem hf))).append (by decide)
  exact .text hname ((TypeNode.isDatum_of_mem_details hf).areInert.append
    (areInert_line (by decide)))

theorem areInert_intrinsic (k : Intrinsic) : AreInert (intrinsicSteps k) := by
  have hname : AllInert ("var _type_" ++ k.name ++ " = \x7b kind: ").toList := by
    cases k <;> decide
  exact .text hname (.literal k.name (areInert_line (by decide)))

theorem areInert_package (e : String × PackageTable) : AreInert (packageSteps e.1 e.2) := by
  have hnames : AreInert (e.2.entries.flatMap nameSteps) :=
    .flatMap fun n _ => .literal n.1 (areInert_numberLine _ (by decide) (by decide))
  have hopen : AreInert (line ": \x7b") := areInert_line (by decide)
  exact .literal e.1 ((hopen.append (.indent hnames)).append (.dedent (areInert_line (by decide))))

theorem areInert_table (t : MetadataTable) : AreInert (tableSteps t) := by
  have hfixed : ∀ {s : String}, AllInert s.toList → AreInert (line s) := areInert_line
  have hcount : AreInert
      (line ("for (var _cnt = 0; _cnt < " ++ toString t.slotCount ++ "; _cnt++) \x7b")) :=
    areInert_numberLine _ (by decide) (by decide)
  have hlibrary : AreInert (Step.text "Reflection.$libs[" :: Step.literal t.library
      :: line "] = \x7b") :=
    .text (by decide) (.literal t.library (hfixed (by decide)))
  have hpackages : AreInert (t.packages.entries.flatMap fun e => packageSteps e.1 e.2) :=
    .flatMap fun e _ => areInert_package e
  exact (hfixed (by decide)).append (hfixed (by decide))
    |>.append (.indent (hfixed (by decide)))
    |>.append (hfixed (by decide))
    |>.append hcount
    |>.append (.indent (hfixed (by decide)))
    |>.append (.dedent (hfixed (by decide)))
    |>.append (.flatMap fun k _ => areInert_intrinsic k)
    |>.append hlibrary
    |>.append (.indent hpackages)
    |>.append (.dedent (hfixed (by decide)))
    |>.append (hfixed (by decide))
    |>.append (.flatMap fun n _ => areInert_node n)
    |>.append (.dedent (hfixed (by decide)))

end

/-- Whatever a table holds, its script with the long line ends is the one with the
short line ends in which every line feed has a carriage return before it.  The latter
has no control character but line feeds and no other character that ends a line, and
it has as many line feeds as lines were ended on purpose. -/
theorem render_breaks (t : MetadataTable) :
    (render .crlf t).toList = (render .lf t).toList.flatMap withReturn ∧
      (∀ c ∈ (render .lf t).toList, c = '\n' ∨ IsInert c) ∧
      (render .lf t).toList.count '\n' = (tableSteps t).count .newLine := by
  have hinert : (Writer.empty.steps (tableSteps t)).IsInert :=
    Writer.isInert_steps Writer.isInert_empty (areInert_table t)
  have hlines : (Writer.empty.steps (tableSteps t)).closed.length = 0 + _ :=
    Writer.length_closed_steps Writer.empty (tableSteps t)
  simp only [render, run, String.toList_ofList]
  refine ⟨Writer.chars_crlf hinert, fun c hc => Writer.isInert_of_mem_chars hinert hc, ?_⟩
  rw [Writer.count_newline_chars hinert, hlines, Nat.zero_add]

end Script

end TypeCatalog
