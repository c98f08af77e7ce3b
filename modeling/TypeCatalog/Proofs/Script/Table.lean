/-
A script carries its whole table.

For one way of ending lines, different tables have different scripts
(`Script.render_injective`).  A script keeps to its lines (`Script.writes_table`), so
that it may be read without its indentation; what is left are parts of which each
says what it writes and where it ends: the number of slots, the primitive types, the
library, the packages with their names, and record by record its slot and its other
fields, which tell the record (`TypeNode.eq_of_details_eq`).
-/
import TypeCatalog.Proofs.Script.Value

namespace TypeCatalog

open Script

/-! ### The fields of records are values of scripts -/

namespace Script

/-- The names of the properties that the values of fields have. -/
def propertyNames : List String :=
  ["name", "type", "optional", "length", "parameters", "rest", "returns", "typeParameters"]

/-- The values of the fields of records, with the names that stand in them. -/
inductive IsDatum : Json → Prop where
  | flag (b : Bool) : IsDatum (.bool b)
  | count (n : Nat) : IsDatum (.nat n)
  | text (s : String) : IsDatum (.string s)
  | list {items : List Json} (hitems : ∀ item ∈ items, IsDatum item) : IsDatum (.array items)
  | edge (r : TypeRef) : IsDatum r.toJson
  | record {fields : List (String × Json)} (hlength : 2 ≤ fields.length)
    (hnames : ∀ f ∈ fields, f.1 ∈ propertyNames) (hvalues : ∀ f ∈ fields, IsDatum f.2) :
    IsDatum (.object fields)

theorem IsDatum.isValue {v : Json} (h : IsDatum v) : IsValue v := by
  have hplain : ∀ name ∈ propertyNames, Identifier.isPlain name = true := by decide
  induction h with
  | flag b => exact .flag b
  | count n => exact .count n
  | text s => exact .text s
  | list _ ih => exact .list ih
  | edge r => exact .edge r
  | record hlength hnames _ ih => exact .record hlength (fun f hf => hplain _ (hnames f hf)) ih

theorem IsDatum.ofList {α : Type} {f : α → Json} {as : List α} (h : ∀ a ∈ as, IsDatum (f a)) :
    IsDatum (.ofList f as) :=
  .list (List.forall_mem_map.mpr h)

/-- A value whose fields have some of the given names. -/
theorem IsDatum.ofFields {fields : List (String × Json)} {names : List String}
    (hlength : 2 ≤ fields.length) (hnames : Field.Within names fields)
    (hknown : ∀ name ∈ names, name ∈ propertyNames)
    (hvalues : ∀ f ∈ fields, IsDatum f.2) : IsDatum (.object fields) :=
  .record hlength (fun _ hf => hknown _ (hnames.mem hf)) hvalues

end Script

theorem Member.isDatum_toJson (m : Member) : IsDatum m.toJson := by
  refine .ofFields (by simp [Field.always])
    ((Field.within_always.append Field.within_always).append Field.within_whenTrue) (by decide)
    (List.forall_mem_append.mpr ⟨List.forall_mem_append.mpr ⟨?_, ?_⟩, ?_⟩)
  · exact Field.forall_always (.text m.name)
  · exact Field.forall_always (.edge m.type)
  · exact Field.forall_whenTrue (.flag true)

theorem Parameter.isDatum_toJson (p : Parameter) : IsDatum p.toJson := by
  have hnames : Field.Within ["name", "type"]
      [("name", Json.string p.name), ("type", p.type.toJson)] := List.Sublist.refl _
  refine .ofFields (Nat.le_refl 2) hnames (by decide) (List.forall_mem_cons.mpr ⟨.text p.name, ?_⟩)
  exact List.forall_mem_singleton.mpr (.edge p.type)

theorem Signature.isDatum_toJson (s : Signature) : IsDatum s.toJson := by
  refine .ofFields (by simp [Field.always])
    ((((Field.within_always.append Field.within_always).append Field.within_whenTrue).append
      Field.within_always).append Field.within_whenAny) (by decide)
    (List.forall_mem_append.mpr ⟨List.forall_mem_append.mpr ⟨List.forall_mem_append.mpr
      ⟨List.forall_mem_append.mpr ⟨?_, ?_⟩, ?_⟩, ?_⟩, ?_⟩)
  · exact Field.forall_always (.count s.length)
  · exact Field.forall_always (.ofList fun p _ => p.isDatum_toJson)
  · exact Field.forall_whenTrue (.flag true)
  · exact Field.forall_always (.edge s.returns)
  · exact Field.forall_whenAny (.ofList fun r _ => .edge r)

theorem ObjectBody.isDatum_toFields (b : ObjectBody) : ∀ f ∈ b.toFields, IsDatum f.2 := by
  have hsignatures : ∀ ss : List Signature, IsDatum (.ofList Signature.toJson ss) :=
    fun ss => .ofList fun s _ => s.isDatum_toJson
  refine List.forall_mem_append.mpr ⟨List.forall_mem_append.mpr ⟨List.forall_mem_append.mpr
    ⟨List.forall_mem_append.mpr ⟨?_, ?_⟩, ?_⟩, ?_⟩, ?_⟩
  · exact Field.forall_whenAny (.ofList fun r _ => .edge r)
  · exact Field.forall_whenAny (.ofList fun m _ => m.isDatum_toJson)
  all_goals exact Field.forall_whenAny (hsignatures _)

theorem NodeKind.isDatum_toFields (k : NodeKind) : ∀ f ∈ k.toFields, IsDatum f.2 := by
  have hrefs : ∀ rs : List TypeRef, IsDatum (.ofList TypeRef.toJson rs) :=
    fun rs => .ofList fun r _ => .edge r
  cases k with
  | classNode body statics base implemented =>
    refine List.forall_mem_append.mpr ⟨List.forall_mem_append.mpr ⟨List.forall_mem_append.mpr
      ⟨body.isDatum_toFields, ?_⟩, ?_⟩, ?_⟩
    · exact Field.forall_whenAny (.ofList fun m _ => m.isDatum_toJson)
    · exact Field.forall_whenSome fun r _ => .edge r
    · exact Field.forall_whenAny (hrefs implemented)
  | interfaceNode body bases =>
    exact List.forall_mem_append.mpr ⟨body.isDatum_toFields, Field.forall_whenAny (hrefs bases)⟩
  | array elementType => exact List.forall_mem_singleton.mpr (.edge elementType)
  | reference target typeArguments =>
    exact List.forall_mem_cons.mpr
      ⟨.edge target, List.forall_mem_singleton.mpr (hrefs typeArguments)⟩
  | union types => exact List.forall_mem_singleton.mpr (hrefs types)
  | intersection types => exact List.forall_mem_singleton.mpr (hrefs types)
  | tuple elements => exact List.forall_mem_singleton.mpr (hrefs elements)
  | function signatures =>
    exact List.forall_mem_singleton.mpr (.ofList fun s _ => s.isDatum_toJson)
  | typeLiteral body => exact body.isDatum_toFields
  | typeParameter constraint => exact Field.forall_whenSome fun r _ => .edge r
  | expression target => exact List.forall_mem_singleton.mpr (.edge target)

namespace TypeNode

variable {n : TypeNode} {f : String × Json}

theorem isDatum_of_mem_details (hf : f ∈ n.details) : IsDatum f.2 := by
  have hall : ∀ f ∈ n.details, IsDatum f.2 :=
    List.forall_mem_append.mpr ⟨Field.forall_whenSome fun name _ => .text name,
      List.forall_mem_cons.mpr ⟨.text n.kind.tag, n.kind.isDatum_toFields⟩⟩
  exact hall f hf

theorem isValue_of_mem_details (hf : f ∈ n.details) : IsValue f.2 :=
  (isDatum_of_mem_details hf).isValue

/-- The fields beside the slot have some of these names. -/
theorem within_details (n : TypeNode) :
    Field.Within ("name" :: "kind" :: NodeKind.fieldNames) n.details :=
  Field.within_whenSome.append (n.kind.within_toFields.cons_cons "kind")

/-- The names of the fields beside the slot are plain, and none of them is that of the slot. -/
theorem name_of_mem_details (hf : f ∈ n.details) :
    Identifier.isPlain f.1 = true ∧ f.1 ≠ "slot" := by
  have hall : ∀ name ∈ "name" :: "kind" :: NodeKind.fieldNames,
      Identifier.isPlain name = true ∧ name ≠ "slot" := by decide
  exact hall f.1 (n.within_details.mem hf)

/-- A script fills in all fields of a record but its slot. -/
theorem filter_fieldsOf_toJson (n : TypeNode) :
    (fieldsOf n.toJson).filter (·.1 ≠ "slot") = n.details := by
  have hdetails : n.details.filter (·.1 ≠ "slot") = n.details :=
    List.filter_eq_self.mpr fun f hf => decide_eq_true (name_of_mem_details hf).2
  rw [toJson, fieldsOf, List.cons_append, List.filter_cons_of_neg (by simp)]
  exact hdetails

end TypeNode

/-! ### The parts of a script -/

namespace Script

open Step

variable {newLine : NewLine}

theorem bare_text_cons (s : String) (ss : List Step) :
    bare newLine (text s :: ss) = s.toList ++ bare newLine ss :=
  rfl

theorem bare_literal_cons (s : String) (ss : List Step) :
    bare newLine (literal s :: ss) = quote s.toList ++ bare newLine ss :=
  rfl

theorem bare_indent_cons (ss : List Step) : bare newLine (.indent :: ss) = bare newLine ss := rfl

theorem bare_dedent_cons (ss : List Step) : bare newLine (.dedent :: ss) = bare newLine ss := rfl

theorem bare_line (s : String) : bare newLine (line s) = s.toList ++ newLine.chars := by
  rw [line, bare_text_cons, bare_cons, bare_nil, List.append_nil]
  rfl

theorem toList_toString (n : Nat) : (toString n).toList = Nat.toDigits 10 n := by simp

/-- A number in a line is told by its digits. -/
theorem digits_text_inj {n n' : Nat} {s : String} {c : Char} {r r' : List Char}
    (hs : s.toList.head? = some c) (hc : c.isDigit = false)
    (h : Nat.toDigits 10 n ++ (s.toList ++ r) = Nat.toDigits 10 n' ++ (s.toList ++ r')) :
    n = n' ∧ r = r' := by
  have hhead : ∀ r : List Char, ∀ d ∈ (s.toList ++ r).head?, d.isDigit = false := by
    intro r d hd
    rw [List.head?_append, hs, Option.some_or, Option.mem_some_iff] at hd
    rwa [← hd]
  obtain ⟨hn, hr⟩ := digits_append_inj (hhead r) (hhead r') h
  exact ⟨hn, List.append_cancel_left hr⟩

/-! Primitive types. -/

theorem bare_intrinsicSteps (k : Intrinsic) : bare newLine (intrinsicSteps k)
    = "var _type_".toList ++ (k.name.toList ++ (" = \x7b kind: ".toList
      ++ (quote k.name.toList ++ (" \x7d;".toList ++ newLine.chars)))) := by
  simp only [intrinsicSteps, bare_text_cons, bare_literal_cons, bare_line, String.toList_append,
    List.append_assoc]

theorem intrinsicSteps_inj {k k' : Intrinsic} {r r' : List Char}
    (h : bare newLine (intrinsicSteps k) ++ r = bare newLine (intrinsicSteps k') ++ r') :
    k = k' ∧ r = r' := by
  have htext := h
  simp only [bare_intrinsicSteps, List.append_assoc, List.append_cancel_left_eq] at htext
  obtain ⟨rfl, -⟩ := intrinsic_append_inj htext
  exact ⟨rfl, List.append_cancel_left h⟩

/-! Packages and their names. -/

/-- The steps that publish a name. -/
def nameSteps (e : String × SlotId) : List Step :=
  literal e.1 :: line (": _l[" ++ toString e.2.index ++ "],")

theorem bare_nameSteps (e : String × SlotId) : bare newLine (nameSteps e)
    = quote e.1.toList ++ (": _l[".toList ++ (Nat.toDigits 10 e.2.index
      ++ ("],".toList ++ newLine.chars))) := by
  simp only [nameSteps, bare_literal_cons, bare_line, String.toList_append, toList_toString,
    List.append_assoc]

theorem nameSteps_inj {e e' : String × SlotId} {r r' : List Char}
    (h : bare newLine (nameSteps e) ++ r = bare newLine (nameSteps e') ++ r') :
    e = e' ∧ r = r' := by
  simp only [bare_nameSteps, List.append_assoc] at h
  obtain ⟨hname, h⟩ := quote_append_inj h
  obtain ⟨hindex, h⟩ := digits_text_inj rfl rfl (List.append_cancel_left h)
  refine ⟨Prod.ext (String.toList_inj.mp hname) ?_, List.append_cancel_left h⟩
  exact congrArg SlotId.mk hindex

theorem bare_packageSteps (e : String × PackageTable) : bare newLine (packageSteps e.1 e.2)
    = quote e.1.toList ++ (": \x7b".toList ++ (newLine.chars
      ++ (e.2.entries.flatMap (fun n => bare newLine (nameSteps n))
        ++ ("\x7d,".toList ++ newLine.chars)))) := by
  have hsteps : packageSteps e.1 e.2 = literal e.1 :: (line ": \x7b" ++ .indent
      :: e.2.entries.flatMap nameSteps ++ .dedent :: line "\x7d,") := rfl
  simp only [hsteps, bare_append, bare_literal_cons, bare_indent_cons, bare_dedent_cons,
    bare_line, bare_flatMap, List.append_assoc]

/-- What publishes something begins with a quotation mark. -/
theorem head?_quote_append (s r : List Char) : (quote s ++ r).head? = some '\'' := rfl

theorem packageSteps_inj {e e' : String × PackageTable} {r r' : List Char}
    (h : bare newLine (packageSteps e.1 e.2) ++ r = bare newLine (packageSteps e'.1 e'.2) ++ r') :
    e = e' ∧ r = r' := by
  simp only [bare_packageSteps, List.append_assoc] at h
  obtain ⟨hpackage, h⟩ := quote_append_inj h
  have h := List.append_cancel_left (List.append_cancel_left h)
  have hgoes : ∀ (n : String × SlotId) (r : List Char),
      ¬ (bare newLine (nameSteps n) ++ r).head? = some '\x7d' := by
    intro n r
    rw [bare_nameSteps, List.append_assoc, head?_quote_append]
    decide
  have hclose : ∀ r : List Char, ("\x7d,".toList ++ r).head? = some '\x7d' := fun r => rfl
  obtain ⟨hnames, h⟩ := flatMap_append_inj (fun text => text.head? = some '\x7d')
    (fun n _ n' _ r r' h => nameSteps_inj h) (fun n _ => hgoes n) (fun n _ => hgoes n)
    (hclose _) (hclose _) h
  refine ⟨Prod.ext (String.toList_inj.mp hpackage) (OrderedMap.ext_entries hnames), ?_⟩
  exact List.append_cancel_left (List.append_cancel_left h)

/-! Records. -/

theorem bare_assignment (f : String × Json) : bare newLine (assignment f.1 f.2)
    = '_' :: 't' :: '.' :: (f.1.toList ++ ' ' :: '=' :: ' ' :: (bare newLine (valueSteps f.2)
      ++ ';' :: newLine.chars)) := by
  have hhead : "_t.".toList = ['_', 't', '.'] := rfl
  have hequals : " = ".toList = [' ', '=', ' '] := rfl
  have hend : ";".toList = [';'] := rfl
  simp only [assignment, bare_text_cons, bare_append, bare_line, String.toList_append, hhead,
    hequals, hend, List.append_assoc, List.cons_append, List.nil_append]

theorem assignment_inj {f f' : String × Json} (hf : Identifier.isPlain f.1 = true)
    (hf' : Identifier.isPlain f'.1 = true) (hv : IsValue f.2) (hv' : IsValue f'.2)
    {r r' : List Char} (h : bare newLine (assignment f.1 f.2) ++ r
      = bare newLine (assignment f'.1 f'.2) ++ r') : f = f' ∧ r = r' := by
  simp only [bare_assignment, List.cons_append, List.append_assoc, List.cons.injEq,
    true_and] at h
  obtain ⟨hname, h⟩ := append_cons_inj (Identifier.notMem_of_isPlain hf (by decide))
    (Identifier.notMem_of_isPlain hf' (by decide)) h
  simp only [List.cons.injEq, true_and] at h
  obtain ⟨hvalue, h⟩ := hv.isTold _ _ _ hv' (by simp) (by simp) h
  simp only [List.cons.injEq, true_and] at h
  exact ⟨Prod.ext (String.toList_inj.mp hname) hvalue, List.append_cancel_left h⟩

theorem bare_nodeSteps (n : TypeNode) : bare newLine (nodeSteps n)
    = '_' :: 't' :: ' ' :: ("= _l[".toList ++ (Nat.toDigits 10 n.slot.index ++ ("];".toList
      ++ (newLine.chars ++ n.details.flatMap fun f => bare newLine (assignment f.1 f.2))))) := by
  have hhead : "_t = _l[".toList = '_' :: 't' :: ' ' :: "= _l[".toList := by decide
  simp only [nodeSteps, n.filter_fieldsOf_toJson, bare_append, bare_flatMap, bare_line, hhead,
    String.toList_append, toList_toString, List.append_assoc, List.cons_append]

/-- Behind the fields of a record comes another record or the end, and no more fields. -/
theorem take_flatMap_nodeSteps_ne {closing : List Char} (hclosing : closing.head? = some '\x7d')
    (ns : List TypeNode) :
    ((ns.flatMap fun n => bare newLine (nodeSteps n)) ++ closing).take 3 ≠ ['_', 't', '.'] := by
  intro hdot
  cases ns with
  | nil =>
    rw [List.flatMap_nil, List.nil_append] at hdot
    cases closing with
    | nil => simp at hdot
    | cons c rest => simp_all
  | cons n ns =>
    rw [List.flatMap_cons, bare_nodeSteps] at hdot
    simp at hdot

/-- The records of a table are told by what fills them in. -/
theorem flatMap_nodeSteps_inj {ns ns' : List TypeNode} {closing : List Char}
    (hclosing : closing.head? = some '\x7d')
    (h : (ns.flatMap fun n => bare newLine (nodeSteps n)) ++ closing
      = (ns'.flatMap fun n => bare newLine (nodeSteps n)) ++ closing) : ns = ns' := by
  induction ns generalizing ns' with
  | nil =>
    cases ns' with
    | nil => rfl
    | cons n' ns' =>
      rw [List.flatMap_nil, List.nil_append, List.flatMap_cons, bare_nodeSteps] at h
      rw [h] at hclosing
      simp at hclosing
  | cons n ns ih =>
    cases ns' with
    | nil =>
      rw [List.flatMap_nil, List.nil_append, List.flatMap_cons, bare_nodeSteps] at h
      rw [← h] at hclosing
      simp at hclosing
    | cons n' ns' =>
      rw [List.flatMap_cons, List.flatMap_cons, bare_nodeSteps n, bare_nodeSteps n'] at h
      simp only [List.cons_append, List.append_assoc, List.cons.injEq, true_and,
        List.append_cancel_left_eq] at h
      obtain ⟨hslot, h⟩ := digits_text_inj rfl rfl h
      have hgoes : ∀ (f : String × Json) (r : List Char),
          ¬ ¬ (bare newLine (assignment f.1 f.2) ++ r).take 3 = ['_', 't', '.'] := by
        intro f r
        rw [bare_assignment]
        simp
      obtain ⟨hdetails, h⟩ := flatMap_append_inj (fun text => ¬ text.take 3 = ['_', 't', '.'])
        (fun f hf f' hf' r r' h => assignment_inj (TypeNode.name_of_mem_details hf).1
          (TypeNode.name_of_mem_details hf').1 (TypeNode.isValue_of_mem_details hf)
          (TypeNode.isValue_of_mem_details hf') h)
        (fun f _ => hgoes f) (fun f _ => hgoes f) (take_flatMap_nodeSteps_ne hclosing ns)
        (take_flatMap_nodeSteps_ne hclosing ns') (List.append_cancel_left h)
      rw [TypeNode.eq_of_details_eq (congrArg SlotId.mk hslot) hdetails, ih h]

/-! ### Scripts keep to lines -/

theorem writes_intrinsic (k : Intrinsic) : Writes newLine true (intrinsicSteps k) true := by
  have hname : Writes newLine true [text ("var _type_" ++ k.name ++ " = \x7b kind: ")] false := by
    cases k
    all_goals exact .write (by decide)
  exact hname.cons ((writes_literal k.name false).cons (.line (by decide)))

theorem writes_name (e : String × SlotId) : Writes newLine true (nameSteps e) true := by
  refine (writes_literal e.1 true).cons (.line ⟨?_, ?_, nofun⟩)
  · simp
  · simp [newline_notMem_digits]

theorem writes_package (e : String × PackageTable) :
    Writes newLine true (packageSteps e.1 e.2) true := by
  have hopen : Writes newLine false (line ": \x7b") true := .line (by decide)
  have hclose : Writes newLine true (line "\x7d,") true := .line (by decide)
  exact (writes_literal e.1 true).cons ((hopen.append (Writes.indent.cons
    (.flatMap fun e _ => writes_name e))).append (Writes.dedent.cons hclose))

theorem writes_assignment {f : String × Json} (hf : Identifier.isPlain f.1 = true)
    (hv : IsValue f.2) : Writes newLine true (assignment f.1 f.2) true := by
  have hname : Writes newLine true [text ("_t." ++ f.1 ++ " = ")] false := by
    refine .write ⟨?_, ?_, fun _ => ?_⟩
    · simp
    · simp [Identifier.notMem_of_isPlain hf (c := '\n') (by decide)]
    · simp
  exact hname.cons ((hv.writes false).append (.line (by decide)))

theorem writes_node (n : TypeNode) : Writes newLine true (nodeSteps n) true := by
  have hslot : Writes newLine true (line ("_t = _l[" ++ toString n.slot.index ++ "];")) true := by
    refine .line ⟨?_, ?_, fun _ => ?_⟩
    · simp
    · simp [newline_notMem_digits]
    · simp
  rw [nodeSteps, n.filter_fieldsOf_toJson]
  exact hslot.append (.flatMap fun f hf =>
    writes_assignment (TypeNode.name_of_mem_details hf).1 (TypeNode.isValue_of_mem_details hf))

/-- The lines that make the slots. -/
theorem writes_count (n : Nat) : Writes newLine true
    (line ("for (var _cnt = 0; _cnt < " ++ toString n ++ "; _cnt++) \x7b")) true := by
  refine .line ⟨?_, ?_, fun _ => ?_⟩
  · simp
  · simp [newline_notMem_digits]
  · simp

theorem writes_table (t : MetadataTable) : Writes newLine true (tableSteps t) true := by
  have hcomment : Writes newLine true (line "/* Reflection metadata generated by tsr. */") true :=
    .line (by decide)
  have hopen : Writes newLine true (line "(function (globalObj) \x7b") true := .line (by decide)
  have hroot : Writes newLine true (line "var Reflection = globalObj.Reflection || (globalObj.Reflection = \x7b $libs: Object.create(null) \x7d);") true :=
    .line (by decide)
  have hslots : Writes newLine true (line "var _l = [];") true := .line (by decide)
  have hslot : Writes newLine true (line "_l[_cnt] = Object.create(null);") true :=
    .line (by decide)
  have hdone : Writes newLine true (line "\x7d") true := .line (by decide)
  have hintrinsics : Writes newLine true (t.intrinsics.flatMap intrinsicSteps) true :=
    .flatMap fun k _ => writes_intrinsic k
  have hlibs : Writes newLine true [text "Reflection.$libs["] false :=
    .write (by decide)
  have hlibrary : Writes newLine false [literal t.library] false := writes_literal t.library false
  have hnames : Writes newLine false (line "] = \x7b") true := .line (by decide)
  have hpackages : Writes newLine true
      (t.packages.entries.flatMap fun e => packageSteps e.1 e.2) true :=
    .flatMap fun e _ => writes_package e
  have hended : Writes newLine true (line "\x7d;") true := .line (by decide)
  have hrecord : Writes newLine true (line "var _t;") true := .line (by decide)
  have hnodes : Writes newLine true (t.populations.flatMap nodeSteps) true :=
    .flatMap fun n _ => writes_node n
  have hclose : Writes newLine true
      (line "\x7d)(typeof globalThis !== 'undefined' ? globalThis : this);") true :=
    .line (by decide)
  exact hcomment.append hopen
    |>.append (Writes.indent.cons hroot)
    |>.append hslots
    |>.append (writes_count t.slotCount)
    |>.append (Writes.indent.cons hslot)
    |>.append (Writes.dedent.cons hdone)
    |>.append hintrinsics
    |>.append (hlibs.cons (hlibrary.cons hnames))
    |>.append (Writes.indent.cons hpackages)
    |>.append (Writes.dedent.cons hended)
    |>.append hrecord
    |>.append hnodes
    |>.append (Writes.dedent.cons hclose)

/-- Without its indentation, a script still says which table it registers. -/
theorem bare_tableSteps_inj {t t' : MetadataTable}
    (h : bare newLine (tableSteps t) = bare newLine (tableSteps t')) : t = t' := by
  simp only [tableSteps, bare_append, bare_text_cons, bare_literal_cons, bare_indent_cons,
    bare_dedent_cons, bare_line, bare_flatMap, String.toList_append, toList_toString,
    List.append_assoc, List.append_cancel_left_eq] at h
  obtain ⟨hcount, h⟩ := digits_text_inj rfl rfl h
  simp only [List.append_cancel_left_eq] at h
  -- the primitive types end where the library is named
  have hlibrary : ∀ r : List Char, ("Reflection.$libs[".toList ++ r).head? = some 'R' :=
    fun r => rfl
  have hgoes : ∀ (k : Intrinsic) (r : List Char),
      ¬ (bare newLine (intrinsicSteps k) ++ r).head? = some 'R' := by
    intro k r hhead
    rw [bare_intrinsicSteps, List.append_assoc, List.head?_append_of_ne_nil _ (by decide)] at hhead
    exact absurd hhead (by decide)
  obtain ⟨hintrinsics, h⟩ := flatMap_append_inj (fun text => text.head? = some 'R')
    (fun k _ k' _ r r' h => intrinsicSteps_inj h) (fun k _ => hgoes k) (fun k _ => hgoes k)
    (hlibrary _) (hlibrary _) h
  simp only [List.append_cancel_left_eq] at h
  obtain ⟨hname, h⟩ := quote_append_inj h
  simp only [List.append_cancel_left_eq] at h
  -- the packages end with a bracket
  have hclose : ∀ r : List Char, ("\x7d;".toList ++ r).head? = some '\x7d' := fun r => rfl
  have hgoes : ∀ (e : String × PackageTable) (r : List Char),
      ¬ (bare newLine (packageSteps e.1 e.2) ++ r).head? = some '\x7d' := by
    intro e r
    rw [bare_packageSteps, List.append_assoc, head?_quote_append]
    decide
  obtain ⟨hpackages, h⟩ := flatMap_append_inj (fun text => text.head? = some '\x7d')
    (fun e _ e' _ r r' h => packageSteps_inj h) (fun e _ => hgoes e) (fun e _ => hgoes e)
    (hclose _) (hclose _) h
  simp only [List.append_cancel_left_eq] at h
  have hpopulations := flatMap_nodeSteps_inj rfl h
  have hpackages := OrderedMap.ext_entries hpackages
  cases t
  cases t'
  simp_all [String.toList_inj]

/-- With either line ending, no two tables have the same script. -/
theorem render_injective (newLine : NewLine) : Function.Injective (render newLine) := by
  intro t t' h
  have hbare := congrArg (fun script => unindent true script.toList) h
  dsimp only [render] at hbare
  rw [Writes.unindent_run (writes_table t), Writes.unindent_run (writes_table t')] at hbare
  exact bare_tableSteps_inj hbare

end Script

end TypeCatalog
