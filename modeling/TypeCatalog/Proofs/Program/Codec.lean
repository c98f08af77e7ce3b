/-
Programs are read back from their texts.

A program can be written (`Program.IsWritable`) if its types can be, its declarations
have numbers of at most 32 bits, and its namespaces nest at most 60 deep, for
containers may nest at most 127 deep in a text and every namespace takes two.  The
text of such a program is read to the program (`Program.read_toText_self`): the
primitive types are left out and are there again, what was `null` or absent is absent,
and the check that the program passed is passed again.
-/
import TypeCatalog.Proofs.Program.TypeData

namespace TypeCatalog

open Json

/-! ### What can be written -/

/-- A declaration whose number has at most 32 bits. -/
def DeclId.FitsWord (d : DeclId) : Prop := d.index < Nat.pow 2 32

instance (d : DeclId) : Decidable d.FitsWord := inferInstanceAs (Decidable (_ < _))

namespace Statement

mutual

/-- How many namespaces stand inside each other. -/
def nesting : Statement → Nat
  | nameSpace _ body => listNesting body + 1
  | _ => 0

/-- How many namespaces stand inside each other in some statements. -/
def listNesting : List Statement → Nat
  | [] => 0
  | s :: rest => max s.nesting (listNesting rest)

end

end Statement

/-- Handles and declarations have at most 32 bits, numbers are read back, and namespaces
nest at most 60 deep. -/
structure Program.IsWritable (p : Program) : Prop where
  types : ∀ data ∈ p.types, data.IsWritable
  declarations : ∀ h ∈ p.declarations, h.FitsWord
  statements : ∀ file ∈ p.files, ∀ d ∈ Statement.listDeclarations file.statements, d.FitsWord
  nesting : ∀ file ∈ p.files, Statement.listNesting file.statements ≤ 60

instance (p : Program) : Decidable p.IsWritable :=
  decidable_of_iff ((∀ data ∈ p.types, data.IsWritable) ∧ (∀ h ∈ p.declarations, h.FitsWord) ∧
      (∀ file ∈ p.files, ∀ d ∈ Statement.listDeclarations file.statements, d.FitsWord) ∧
      ∀ file ∈ p.files, Statement.listNesting file.statements ≤ 60)
    ⟨fun h => ⟨h.1, h.2.1, h.2.2.1, h.2.2.2⟩,
      fun h => ⟨h.types, h.declarations, h.statements, h.nesting⟩⟩

/-! ### Statements and files -/

namespace DeclId

variable {d : DeclId}

theorem isReadable_toJson {n : Nat} (h : d.FitsWord) : IsReadable n d.toJson :=
  isReadable_nat (Nat.lt_trans h (by decide))

theorem reads_toJson (h : d.FitsWord) : DeclId.decode.Reads d.toJson d :=
  (Decoder.reads_natural32 h).map DeclId.mk

end DeclId

namespace Statement

variable {s : Statement} {ss : List Statement} {bound : Nat}

theorem listToJson_eq_map (ss : List Statement) : listToJson ss = ss.map toJson := by
  induction ss with
  | nil => rw [listToJson, List.map_nil]
  | cons s rest ih => rw [listToJson, List.map_cons, ih]

theorem listDeclarations_eq_flatMap (ss : List Statement) :
    listDeclarations ss = ss.flatMap declarations := by
  induction ss with
  | nil => rw [listDeclarations, List.flatMap_nil]
  | cons s rest ih => rw [listDeclarations, List.flatMap_cons, ih]

theorem nesting_le_listNesting (hs : s ∈ ss) : s.nesting ≤ listNesting ss := by
  induction ss with
  | nil => exact absurd hs List.not_mem_nil
  | cons s' rest ih =>
    rw [listNesting]
    rcases List.mem_cons.mp hs with rfl | hs
    · exact Nat.le_max_left _ _
    · exact Nat.le_trans (ih hs) (Nat.le_max_right _ _)

/-- The statements of a namespace nest less deep than it, and name no other declarations. -/
theorem of_mem_body (name : String) (hs : s ∈ ss) :
    s.nesting < (nameSpace name ss).nesting ∧
      ∀ d ∈ s.declarations, d ∈ (nameSpace name ss).declarations := by
  rw [nesting, declarations, listDeclarations_eq_flatMap]
  exact ⟨Nat.lt_succ_of_le (nesting_le_listNesting hs),
    fun d hd => List.mem_flatMap.mpr ⟨s, hs, hd⟩⟩

/-- The word for the kind of a statement. -/
def tag : Statement → String
  | nameSpace _ _ => "namespace"
  | classDeclaration _ _ => "class"
  | interfaceDeclaration _ _ => "interface"
  | typeAlias _ _ => "typeAlias"
  | other => "other"

/-- The fields of a statement beside its tag. -/
def toFields : Statement → List (String × Json)
  | nameSpace name body => [("name", .string name), ("statements", .ofList toJson body)]
  | classDeclaration decl name => [("decl", decl.toJson), ("name", .ofOption .string name)]
  | interfaceDeclaration decl name => [("decl", decl.toJson), ("name", .ofOption .string name)]
  | typeAlias decl name => [("decl", decl.toJson), ("name", .string name)]
  | other => []

theorem toJson_eq (s : Statement) : s.toJson = .object (("kind", .string s.tag) :: s.toFields) := by
  cases s with
  | nameSpace name body =>
    rw [toJson, listToJson_eq_map]
    rfl
  | _ =>
    rw [toJson]
    rfl

theorem within_toFields (s : Statement) : Field.Within ["decl", "name", "statements"] s.toFields := by
  cases s with
  | nameSpace name body =>
    exact (by decide : List.Sublist ["name", "statements"] ["decl", "name", "statements"])
  | other => exact List.nil_sublist _
  | _ => exact (by decide : List.Sublist ["decl", "name"] ["decl", "name", "statements"])

theorem tag_mem_kinds (s : Statement) : s.tag ∈ kinds := by
  cases s <;> simp [kinds, tag]

/-- The tag of a statement is read, and its other fields are held. -/
theorem readTag_toJson (s : Statement) (source : Source) :
    readTag "kind" kinds source (.ofJson s.toJson)
      = .ok (s.tag, .named (Draft.ofFields s.toFields)) := by
  have hne : ∀ name ∈ ["decl", "name", "statements"], name ≠ "kind" := by decide
  rw [toJson_eq, Draft.ofJson]
  exact readTagNamed_cons s.tag_mem_kinds fun f hf => hne f.1 (s.within_toFields.mem hf)

mutual

/-- Every namespace takes two containers, for itself and for its statements. -/
theorem isReadable_toJson : ∀ s : Statement, (∀ d ∈ s.declarations, d.FitsWord) →
    IsReadable (2 * s.nesting + 1) s.toJson
  | nameSpace name body, hd => by
    have hbody := isReadable_listToJson body hd
    rw [toJson, nesting]
    exact .object (List.forall_mem_cons.mpr ⟨.string "namespace", List.forall_mem_cons.mpr
      ⟨.string name, List.forall_mem_singleton.mpr (.array hbody)⟩⟩)
  | classDeclaration decl name, hd => by
    rw [toJson]
    exact .object (List.forall_mem_cons.mpr ⟨.string "class", List.forall_mem_cons.mpr
      ⟨DeclId.isReadable_toJson (hd decl List.mem_cons_self), List.forall_mem_singleton.mpr
        (isReadable_ofOption fun s _ => .string s)⟩⟩)
  | interfaceDeclaration decl name, hd => by
    rw [toJson]
    exact .object (List.forall_mem_cons.mpr ⟨.string "interface", List.forall_mem_cons.mpr
      ⟨DeclId.isReadable_toJson (hd decl List.mem_cons_self), List.forall_mem_singleton.mpr
        (isReadable_ofOption fun s _ => .string s)⟩⟩)
  | typeAlias decl name, hd => by
    rw [toJson]
    exact .object (List.forall_mem_cons.mpr ⟨.string "typeAlias", List.forall_mem_cons.mpr
      ⟨DeclId.isReadable_toJson (hd decl List.mem_cons_self), List.forall_mem_singleton.mpr
        (.string name)⟩⟩)
  | other, _ => by
    rw [toJson]
    exact .object (List.forall_mem_singleton.mpr (.string "other"))

theorem isReadable_listToJson : ∀ ss : List Statement,
    (∀ d ∈ listDeclarations ss, d.FitsWord) →
      ∀ v ∈ listToJson ss, IsReadable (2 * listNesting ss + 1) v
  | [], _ => fun v hv => absurd hv (by simp [listToJson])
  | s :: rest, hd => by
    rw [listDeclarations, List.forall_mem_append] at hd
    have hs := isReadable_toJson s hd.1
    have hrest := isReadable_listToJson rest hd.2
    rw [listToJson, listNesting]
    exact List.forall_mem_cons.mpr ⟨hs.mono (by omega), fun v hv => (hrest v hv).mono (by omega)⟩

end

/-- Statements are read by a reader that goes deeper than they nest. -/
theorem reads_toJson (hs : s.nesting < bound) (hd : ∀ d ∈ s.declarations, d.FitsWord) :
    (decodeUpTo bound).Reads s.toJson s := by
  -- one step of the bound reads one statement and leaves the rest to those in it
  induction bound generalizing s with
  | zero => exact absurd hs (Nat.not_lt_zero _)
  | succ bound ih =>
    intro source
    have hn : (s.toFields.map Prod.fst).Nodup := s.within_toFields.nodup (by decide)
    rw [decodeUpTo]
    refine (bind_of_eq_ok (s.readTag_toJson source) _).trans ?_
    cases s with
    | nameSpace name body =>
      have hbody : (Decoder.list (decodeUpTo bound)).Reads (.ofList toJson body) body := by
        refine Decoder.reads_list fun s hmem => ?_
        obtain ⟨hlt, hdeclarations⟩ := of_mem_body name hmem
        exact ih (Nat.lt_of_lt_of_le hlt (Nat.le_of_lt_succ hs)) fun d h => hd d (hdeclarations d h)
      have hne : ∀ key ∈ ["name"], key ∉ ["statements"] := by decide
      have hfields : (nameSpace <$> Fields.required "name" Decoder.text
          <*> Fields.many "statements" (decodeUpTo bound)).Reads _ _ :=
        ((Fields.reads_field hn rfl (Decoder.reads_text name)).map nameSpace).seq hne
          (Fields.reads_field hn rfl hbody)
      exact hfields.readNamed hn .held
    | classDeclaration decl name =>
      have hdecl := DeclId.reads_toJson (hd decl List.mem_cons_self)
      have hfields : (classDeclaration <$> Fields.required "decl" DeclId.decode
          <*> Fields.maybe "name" Decoder.text).Reads _ _ :=
        ((Fields.reads_field hn rfl hdecl).map classDeclaration).seq (by decide)
          (reads_optionalName hn rfl)
      exact hfields.readNamed hn .held
    | interfaceDeclaration decl name =>
      have hdecl := DeclId.reads_toJson (hd decl List.mem_cons_self)
      have hfields : (interfaceDeclaration <$> Fields.required "decl" DeclId.decode
          <*> Fields.maybe "name" Decoder.text).Reads _ _ :=
        ((Fields.reads_field hn rfl hdecl).map interfaceDeclaration).seq (by decide)
          (reads_optionalName hn rfl)
      exact hfields.readNamed hn .held
    | typeAlias decl name =>
      have hdecl := DeclId.reads_toJson (hd decl List.mem_cons_self)
      have hfields : (typeAlias <$> Fields.required "decl" DeclId.decode
          <*> Fields.required "name" Decoder.text).Reads _ _ :=
        ((Fields.reads_field hn rfl hdecl).map typeAlias).seq (by decide)
          (Fields.reads_field hn rfl (Decoder.reads_text name))
      exact hfields.readNamed hn .held
    | other => rfl

end Statement

namespace SourceFile

variable {file : SourceFile}

theorem isReadable_toJson
    (hd : ∀ d ∈ Statement.listDeclarations file.statements, d.FitsWord) :
    IsReadable (2 * Statement.listNesting file.statements + 3) file.toJson := by
  refine .object (List.forall_mem_append.mpr ⟨List.forall_mem_append.mpr ⟨?_, ?_⟩, ?_⟩)
  · exact Field.readable_always (.string file.fileName)
  · exact Field.readable_always (.array (Statement.isReadable_listToJson file.statements hd))
  · exact Field.readable_whenTrue

theorem reads_toJson (hd : ∀ d ∈ Statement.listDeclarations file.statements, d.FitsWord)
    (hdepth : Statement.listNesting file.statements < greatestDepth) :
    SourceFile.decode.Reads file.toJson file := by
  have hstatements : (Decoder.list Statement.decode).Reads
      (.array (Statement.listToJson file.statements)) file.statements := by
    rw [Statement.listToJson_eq_map]
    refine Decoder.reads_list fun s hs => Statement.reads_toJson ?_ fun d hmem => hd d ?_
    · exact Nat.lt_of_le_of_lt (Statement.nesting_le_listNesting hs) hdepth
    · rw [Statement.listDeclarations_eq_flatMap]
      exact List.mem_flatMap.mpr ⟨s, hs, hmem⟩
  refine Fields.reads_record ?_ fun hn => ?_
  · exact ((Field.within_always.append Field.within_always).append
      Field.within_whenTrue).nodup (by decide)
  refine ((Fields.Reads.map ?_ SourceFile.mk).seq (by decide) ?_).seq (by decide) ?_
  · exact Fields.reads_field hn rfl (Decoder.reads_text file.fileName)
  · exact Fields.reads_field hn rfl hstatements
  · exact Fields.reads_flag hn rfl

end SourceFile

/-! ### Programs -/

namespace Program

variable {p : Program}

theorem isReadable_toJson (h : p.IsWritable) : IsReadable 125 p.toJson := by
  refine .object (List.forall_mem_cons.mpr ⟨?_, List.forall_mem_cons.mpr
    ⟨?_, List.forall_mem_singleton.mpr ?_⟩⟩)
  · exact isReadable_ofList fun data hdata =>
      (TypeData.isReadable_toJson (h.types data hdata)).mono (by decide)
  · exact TypeHandle.isReadable_list h.declarations
  · -- two containers for each of 60 namespaces, three for a statement in its file, two above
    refine isReadable_ofList fun file hfile => ?_
    have hdepth := h.nesting file hfile
    exact (SourceFile.isReadable_toJson (h.statements file hfile)).mono (by omega)

theorem reads_fields (h : p.IsWritable) :
    fields.decode.Reads p.toJson (p.types, p.declarations, p.files) := by
  refine Fields.reads_record (show ["types", "declarations", "files"].Nodup by decide)
    fun hn => ?_
  refine ((Fields.Reads.map ?_ _).seq (by decide) ?_).seq (by decide) ?_
  · exact Fields.reads_field hn rfl (Decoder.reads_list fun data hdata =>
      TypeData.reads_toJson (h.types data hdata))
  · exact Fields.reads_field hn rfl (TypeHandle.reads_list h.declarations)
  · refine Fields.reads_field hn rfl (Decoder.reads_list fun file hfile => ?_)
    exact SourceFile.reads_toJson (h.statements file hfile)
      (Nat.lt_of_le_of_lt (h.nesting file hfile) (by decide))

/-- The parts of a program make up the program. -/
theorem ofParts?_self (p : Program) : ofParts? p.types p.declarations p.files = .ok p := by
  -- what the parts are checked for is what a program keeps of the check
  unfold ofParts?
  split
  · rename_i problem hproblem
    rw [p.no_problem] at hproblem
    cases hproblem
  · obtain ⟨types, declarations, files, representatives, hvalid, rfl⟩ := p
    rfl

/-- The text of a program is read to the program. -/
theorem read_toText_self (p : Program) (h : p.IsWritable) : Program.read p.toText = .ok p := by
  have hdecode : Program.read p.toText = decode .streamed (.ofJson p.toJson) :=
    decodeText_pretty decode (isReadable_toJson h) (by decide)
  rw [hdecode]
  refine (bind_of_eq_ok (reads_fields h .streamed) _).trans ?_
  dsimp only
  rw [p.ofParts?_self]
  rfl

/-- A signature with something in each of its fields. -/
def fullSignature : HostSignature where
  parameters := [⟨"first", ⟨1⟩, false, true⟩, ⟨"…", ⟨26⟩, true, false⟩]
  returns := ⟨5⟩
  typeParameters := [⟨24⟩]

/-- A shape with something in each of its fields. -/
def fullShape : ObjectShape where
  name := some "C"
  typeParameters := [⟨24⟩]
  members := [⟨"m\t", .method, ⟨21⟩, true⟩, ⟨"p", .property, ⟨2⟩, false⟩]
  statics := [⟨"s", .getAccessor, ⟨1⟩, false⟩]
  call := [fullSignature]
  construct := [fullSignature]
  index := [fullSignature]
  bases := [⟨15⟩]
  implemented := [⟨15⟩, ⟨16⟩]
  arrayLike := some false

/-- A program with types, statements and literals of all kinds. -/
def allKinds : Program where
  types := [.literal (.string "a \"literal\"\n"), .literal (.number ⟨false, 6755399441055744, -52⟩),
    .literal (.number (.zero true)), .literal (.boolean false), .object .classForm fullShape,
    .object .interfaceForm .empty, .object .typeLiteral (.named ""), .object .objectLiteral .empty,
    .reference ⟨14⟩ [⟨1⟩, ⟨17⟩], .union [⟨10⟩, ⟨7⟩], .intersection [], .function none [],
    .function (some "f") [fullSignature], .classExpression none ⟨14⟩, .typeParameter "T" none,
    .typeParameter "U" (some ⟨24⟩), .tuple [⟨11⟩, ⟨12⟩, ⟨13⟩], .unmodelled "mapped \u0001 type",
    .intrinsic .this]
  declarations := [⟨14⟩, ⟨15⟩]
  files := [⟨"a.ts", [.classDeclaration ⟨0⟩ (some "C"), .nameSpace "outer"
      [.nameSpace "inner" [.interfaceDeclaration ⟨1⟩ none], .typeAlias ⟨1⟩ "A", .other]], false⟩,
    ⟨"b.d.ts", [], true⟩]
  representatives := _
  no_problem := by decide
  representatives_eq := rfl

theorem read_toText_allKinds :
    allKinds.IsWritable ∧ Program.read allKinds.toText = .ok allKinds := by
  have h : allKinds.IsWritable := by decide +kernel
  exact ⟨h, read_toText_self allKinds h⟩

end Program

end TypeCatalog
