/-
Scripts without their indentation.

The blanks at the heads of lines say nothing: without them, what some steps have
written is the texts of the steps one after the other, with the line endings
between them (`Script.bare`).  This holds of steps whose texts stay on one line and
do not begin with a blank where they begin a line (`Script.IsPhrase`).
`Script.Writes` says so of some steps and tells where in a line they begin and end,
so that it can be put together from step to step.
-/
import TypeCatalog.Script.Writer

namespace TypeCatalog

namespace Script

/-- What a step adds to a text, but for the indentation. -/
def Step.bare (newLine : NewLine) : Step → List Char
  | .write text => text
  | .newLine => newLine.chars
  | .indent => []
  | .dedent => []

/-- What steps write, but for the indentation. -/
def bare (newLine : NewLine) (ss : List Step) : List Char := ss.flatMap (Step.bare newLine)

/-- A text without the blanks at the heads of its lines; the flag says whether the
text itself stands at the head of a line. -/
def unindent : Bool → List Char → List Char
  | _, [] => []
  | atHead, c :: text =>
    if atHead = true ∧ c = ' ' then unindent true text
    else c :: unindent (c = '\n') text

/-- Whether what follows a text stands at the head of a line. -/
def endsAtHead : Bool → List Char → Bool
  | atHead, [] => atHead
  | atHead, c :: text => endsAtHead ((atHead = true ∧ c = ' ') ∨ c = '\n') text

/-- A text that stays on its line, and does not begin with a blank where it begins it. -/
structure IsPhrase (before : Bool) (text : List Char) : Prop where
  ne_nil : text ≠ []
  newline_notMem : '\n' ∉ text
  head?_ne : before = true → text.head? ≠ some ' '

instance (before : Bool) (text : List Char) : Decidable (IsPhrase before text) :=
  decidable_of_iff (text ≠ [] ∧ '\n' ∉ text ∧ (before = true → text.head? ≠ some ' '))
    ⟨fun h => ⟨h.1, h.2.1, h.2.2⟩, fun h => ⟨h.ne_nil, h.newline_notMem, h.head?_ne⟩⟩

section

variable {newLine : NewLine} {ss ss' : List Step} {s : Step} {text text' : List Char}
  {before between after : Bool}

@[simp] theorem bare_nil : bare newLine [] = [] := rfl

@[simp] theorem bare_cons : bare newLine (s :: ss) = s.bare newLine ++ bare newLine ss :=
  List.flatMap_cons

@[simp] theorem bare_append : bare newLine (ss ++ ss') = bare newLine ss ++ bare newLine ss' :=
  List.flatMap_append

theorem bare_flatMap {α : Type} (f : α → List Step) (as : List α) :
    bare newLine (as.flatMap f) = as.flatMap fun a => bare newLine (f a) :=
  List.flatMap_assoc

/-- What may begin a line may stand anywhere on it. -/
theorem IsPhrase.anywhere (h : IsPhrase true text) (before : Bool) : IsPhrase before text :=
  ⟨h.ne_nil, h.newline_notMem, fun _ => h.head?_ne rfl⟩

/-! ### Taking blanks away -/

theorem unindent_append (before : Bool) (text text' : List Char) :
    unindent before (text ++ text')
      = unindent before text ++ unindent (endsAtHead before text) text' := by
  induction text generalizing before with
  | nil => rfl
  | cons c text ih =>
    rw [List.cons_append, unindent, unindent, endsAtHead]
    by_cases h : before = true ∧ c = ' '
    · rw [if_pos h, if_pos h, ih]
      simp [h]
    · rw [if_neg h, if_neg h, ih, List.cons_append]
      simp [h]

theorem endsAtHead_append (before : Bool) (text text' : List Char) :
    endsAtHead before (text ++ text') = endsAtHead (endsAtHead before text) text' := by
  induction text generalizing before with
  | nil => rfl
  | cons c text ih => exact ih _

/-- Inside a line, a text that stays on the line is left as it is. -/
theorem unindent_inside (hn : '\n' ∉ text) :
    unindent false text = text ∧ endsAtHead false text = false := by
  induction text with
  | nil => exact ⟨rfl, rfl⟩
  | cons c text ih =>
    have hc : c ≠ '\n' := fun h => hn (h ▸ List.mem_cons_self)
    have hrest := ih fun h => hn (List.mem_cons_of_mem c h)
    rw [unindent, endsAtHead]
    simp [hc, hrest]

/-- So is, anywhere, a text that does not begin with a blank where it begins a line. -/
theorem IsPhrase.unindent (h : IsPhrase before text) :
    Script.unindent before text = text ∧ endsAtHead before text = false := by
  obtain ⟨hne, hn, hhead⟩ := h
  cases text with
  | nil => exact absurd rfl hne
  | cons c text =>
    have hc : c ≠ '\n' := fun h => hn (h ▸ List.mem_cons_self)
    have hblank : ¬ (before = true ∧ c = ' ') := fun h => hhead h.1 (congrArg some h.2)
    have hrest := unindent_inside fun h => hn (List.mem_cons_of_mem c h)
    rw [Script.unindent, endsAtHead]
    simp [hc, hblank, hrest]

theorem unindent_indentation (level : Nat) :
    unindent true (Writer.indentation level) = [] ∧
      endsAtHead true (Writer.indentation level) = true := by
  unfold Writer.indentation
  induction 4 * level with
  | zero => exact ⟨rfl, rfl⟩
  | succ n ih =>
    rw [List.replicate_succ, unindent, endsAtHead]
    simp [ih]

theorem unindent_newLine (newLine : NewLine) (before : Bool) :
    unindent before newLine.chars = newLine.chars ∧ endsAtHead before newLine.chars = true := by
  cases newLine <;> cases before <;> decide

/-! ### Steps that keep to lines -/

/-- Taken where a line begins or inside it, as `before` says, some steps write a text
that without its indentation is their bare text; `after` says where the text ends. -/
def Writes (newLine : NewLine) (before : Bool) (ss : List Step) (after : Bool) : Prop :=
  ∀ w : Writer, w.opened.isEmpty = before →
    (w.steps ss).opened.isEmpty = after ∧
      ∃ text, (w.steps ss).chars newLine = w.chars newLine ++ text ∧
        unindent before text = bare newLine ss ∧ endsAtHead before text = after

theorem Writes.nil : Writes newLine before [] before :=
  fun _ hw => ⟨hw, [], (List.append_nil _).symm, rfl, rfl⟩

theorem Writes.append (h : Writes newLine before ss between)
    (h' : Writes newLine between ss' after) : Writes newLine before (ss ++ ss') after := by
  intro w hw
  obtain ⟨hopened, text, hchars, hbare, hends⟩ := h w hw
  obtain ⟨hopened', text', hchars', hbare', hends'⟩ := h' (w.steps ss) hopened
  have hsteps : w.steps (ss ++ ss') = (w.steps ss).steps ss' := List.foldl_append
  rw [hsteps]
  refine ⟨hopened', text ++ text', ?_, ?_, ?_⟩
  · rw [hchars', hchars, List.append_assoc]
  · rw [unindent_append, hbare, hends, hbare', bare_append]
  · rw [endsAtHead_append, hends, hends']

theorem Writes.cons (h : Writes newLine before [s] between)
    (h' : Writes newLine between ss after) : Writes newLine before (s :: ss) after :=
  h.append h'

theorem Writes.flatMap {α : Type} {f : α → List Step} {as : List α}
    (h : ∀ a ∈ as, Writes newLine before (f a) before) :
    Writes newLine before (as.flatMap f) before := by
  induction as with
  | nil => exact .nil
  | cons a as ih =>
    exact (h a List.mem_cons_self).append (ih fun b hb => h b (List.mem_cons_of_mem a hb))

theorem Writes.write (h : IsPhrase before text) : Writes newLine before [.write text] false := by
  intro w hw
  have htext := h.unindent
  have hne := h.ne_nil
  have hbare : bare newLine [.write text] = text := List.append_nil text
  show (w.step (.write text)).opened.isEmpty = false ∧
    ∃ text', (w.step (.write text)).chars newLine = _ ++ text' ∧ _
  unfold Writer.step
  dsimp only
  rw [if_neg hne, hbare]
  by_cases ho : w.opened = []
  · -- the line begins with this text, which is indented
    have hbefore : before = true := by rw [← hw, ho, List.isEmpty_nil]
    subst hbefore
    have hindent := unindent_indentation w.level
    rw [if_pos ho]
    refine ⟨by simp [hne], Writer.indentation w.level ++ text, ?_, ?_, ?_⟩
    · simp [Writer.chars, ho]
    · rw [unindent_append, hindent.1, hindent.2, htext.1, List.nil_append]
    · rw [endsAtHead_append, hindent.2, htext.2]
  · rw [if_neg ho]
    refine ⟨by simp [hne], text, ?_, htext⟩
    simp [Writer.chars]

theorem Writes.close : Writes newLine before [.newLine] true := by
  intro w _
  have hline := unindent_newLine newLine before
  refine ⟨rfl, newLine.chars, ?_, ?_, hline.2⟩
  · simp [Writer.steps, Writer.step, Writer.chars]
  · rw [hline.1, bare_cons, bare_nil, List.append_nil]
    rfl

theorem Writes.indent : Writes newLine before [.indent] before :=
  fun _ hw => ⟨hw, [], (List.append_nil _).symm, rfl, rfl⟩

theorem Writes.dedent : Writes newLine before [.dedent] before :=
  fun _ hw => ⟨hw, [], (List.append_nil _).symm, rfl, rfl⟩

/-- A text with the end of its line. -/
theorem Writes.line {s : String} (h : IsPhrase before s.toList) :
    Writes newLine before (Step.line s) true :=
  (Writes.write h).cons .close

/-- Without its indentation, what steps have written is their bare text. -/
theorem Writes.unindent_run (h : Writes newLine true ss after) :
    unindent true (run newLine ss).toList = bare newLine ss := by
  obtain ⟨-, text, hchars, hbare, -⟩ := h Writer.empty rfl
  have hnone : Writer.empty.chars newLine = [] := rfl
  rw [hnone, List.nil_append] at hchars
  rw [run, String.toList_ofList, hchars, hbare]

end

end Script

end TypeCatalog
