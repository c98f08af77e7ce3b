/-
What a script takes for edges are the edges.

A record is data without types: its members, its parameters, its signatures and its
edges are all objects, and a script tells edges from the others by their fields alone.
The objects below a record are gone through in the order in which they stand
(`Json.objectsBelow`).  Part by part, those that are taken for edges are the edges of the
part, in the order of its fields (`Script.Shows`), so they are the edges of the record
(`TypeNode.shows_edges`).
-/
import TypeCatalog.Proofs.Script.Value

namespace TypeCatalog

namespace Json

mutual

/-- The objects in a value, each before those inside it. -/
def objects : Json → List (List (String × Json))
  | .array items => itemObjects items
  | .object fields => fields :: fieldObjects fields
  | _ => []

/-- The objects in some items. -/
def itemObjects : List Json → List (List (String × Json))
  | [] => []
  | item :: rest => item.objects ++ itemObjects rest

/-- The objects in the values of some fields. -/
def fieldObjects : List (String × Json) → List (List (String × Json))
  | [] => []
  | (_, value) :: rest => value.objects ++ fieldObjects rest

end

/-- The objects in a value, but for the value itself. -/
def objectsBelow : Json → List (List (String × Json))
  | .array items => itemObjects items
  | .object fields => fieldObjects fields
  | _ => []

theorem itemObjects_eq_flatMap (items : List Json) : itemObjects items = items.flatMap objects := by
  induction items with
  | nil => rfl
  | cons item rest ih => rw [itemObjects, ih, List.flatMap_cons]

theorem fieldObjects_eq_flatMap (fields : List (String × Json)) :
    fieldObjects fields = fields.flatMap fun f => f.2.objects := by
  induction fields with
  | nil => rfl
  | cons f rest ih => rw [fieldObjects, ih, List.flatMap_cons]

end Json

namespace Script

open Json

/-- An object that is taken for an edge, with what is written for it. -/
def taken? (fields : List (String × Json)) : Option (Json × List Char) :=
  (edgeExpression? fields).map fun text => (.object fields, text)

/-- What is to be taken for an edge: its data, with its text. -/
def shown (r : TypeRef) : Json × List Char := (r.toJson, edgeText r)

/-- The objects that are taken for edges are these edges, in this order. -/
def Shows (objects : List (List (String × Json))) (edges : List TypeRef) : Prop :=
  objects.filterMap taken? = edges.map shown

variable {α : Type} {objects objects' : List (List (String × Json))}
  {edges edges' : List TypeRef} {fields fields' : List (String × Json)} {v : Json}

/-! ### Values -/

theorem Shows.nil : Shows [] [] := rfl

theorem Shows.append (h : Shows objects edges) (h' : Shows objects' edges') :
    Shows (objects ++ objects') (edges ++ edges') := by
  unfold Shows at h h' ⊢
  rw [List.filterMap_append, List.map_append, h, h']

theorem Shows.flatMap {f : α → List (List (String × Json))} {g : α → List TypeRef} {as : List α}
    (h : ∀ a ∈ as, Shows (f a) (g a)) : Shows (as.flatMap f) (as.flatMap g) := by
  induction as with
  | nil => exact .nil
  | cons a rest ih =>
    obtain ⟨ha, hrest⟩ := List.forall_mem_cons.mp h
    exact ha.append (ih hrest)

/-- An edge is taken for itself, and there is nothing inside it. -/
theorem shows_edge (r : TypeRef) : Shows r.toJson.objects [r] := by
  obtain ⟨fields, hfields, hedge⟩ := edgeExpression?_toJson r
  -- the one field of an edge is a number or a name
  have hinside : fieldObjects fields = [] := by cases r <;> cases hfields <;> rfl
  rw [Shows, hfields, Json.objects, hinside, List.filterMap_cons, taken?, hedge, ← hfields]
  rfl

theorem shows_text (s : String) : Shows (Json.string s).objects [] := rfl

theorem shows_count (n : Nat) : Shows (Json.nat n).objects [] := rfl

/-- An object with more than one field is taken for no edge. -/
theorem taken?_eq_none (h : 2 ≤ fields.length) : taken? fields = none := by
  rw [taken?, edgeExpression?_eq_none h, Option.map_none]

theorem Shows.record (hlength : 2 ≤ fields.length) (h : Shows (fieldObjects fields) edges) :
    Shows (Json.object fields).objects edges := by
  rw [Json.objects, Shows, List.filterMap_cons, taken?_eq_none hlength]
  exact h

theorem shows_ofList {f : α → Json} {g : α → List TypeRef} (h : ∀ a, Shows (f a).objects (g a))
    (as : List α) : Shows (Json.ofList f as).objects (as.flatMap g) := by
  rw [Json.ofList, Json.objects, itemObjects_eq_flatMap, List.flatMap_map]
  exact .flatMap fun a _ => h a

/-! ### Fields -/

theorem Shows.beside (h : Shows (fieldObjects fields) edges)
    (h' : Shows (fieldObjects fields') edges') :
    Shows (fieldObjects (fields ++ fields')) (edges ++ edges') := by
  rw [fieldObjects_eq_flatMap, List.flatMap_append, ← fieldObjects_eq_flatMap,
    ← fieldObjects_eq_flatMap]
  exact h.append h'

theorem Shows.always (name : String) (h : Shows v.objects edges) :
    Shows (fieldObjects (Field.always name v)) edges := by
  rw [Field.always, fieldObjects, fieldObjects, List.append_nil]
  exact h

theorem shows_whenTrue (name : String) (flag : Bool) :
    Shows (fieldObjects (Field.whenTrue name flag)) [] := by
  cases flag <;> exact .nil

theorem shows_whenSome (name : String) {f : α → Json} {g : α → List TypeRef}
    (h : ∀ a, Shows (f a).objects (g a)) (o : Option α) :
    Shows (fieldObjects (Field.whenSome name f o)) (o.toList.flatMap g) := by
  cases o with
  | none => exact .nil
  | some a =>
    rw [Option.toList_some, List.flatMap_singleton]
    exact (h a).always name

theorem shows_whenAny (name : String) {f : α → Json} {g : α → List TypeRef}
    (h : ∀ a, Shows (f a).objects (g a)) (as : List α) :
    Shows (fieldObjects (Field.whenAny name f as)) (as.flatMap g) := by
  cases as with
  | nil => exact .nil
  | cons a rest => exact (shows_ofList h (a :: rest)).always name

end Script

open Script Json

/-! ### Parts of records -/

theorem Member.shows_toJson (m : Member) : Shows m.toJson.objects [m.type] := by
  refine .record (by simp [Field.always]) ?_
  exact (((shows_text m.name).always "name").beside ((shows_edge m.type).always "type")).beside
    (shows_whenTrue "optional" m.isOptional)

theorem Parameter.shows_toJson (p : Parameter) : Shows p.toJson.objects [p.type] :=
  .record (Nat.le_refl 2)
    (((shows_text p.name).always "name").beside ((shows_edge p.type).always "type"))

/-- The edges of a signature stand in it in their order: parameters, what it returns, and its
type parameters. -/
theorem Signature.shows_toJson (s : Signature) : Shows s.toJson.objects s.edges := by
  have hedges : s.edges = [] ++ s.parameters.flatMap (fun p => [p.type]) ++ [] ++ [s.returns]
      ++ s.typeParameters.flatMap (fun r => [r]) := by
    simp [edges, List.flatMap_singleton', ← List.map_eq_flatMap]
  rw [hedges]
  refine .record (by simp [Field.always]) ?_
  exact (((((shows_count s.length).always "length").beside
    ((shows_ofList Parameter.shows_toJson s.parameters).always "parameters")).beside
    (shows_whenTrue "rest" s.hasRest)).beside ((shows_edge s.returns).always "returns")).beside
    (shows_whenAny "typeParameters" shows_edge s.typeParameters)

theorem ObjectBody.shows_toFields (b : ObjectBody) : Shows (fieldObjects b.toFields) b.edges := by
  have hedges : b.edges = b.typeParameters.flatMap (fun r => [r])
      ++ b.members.flatMap (fun m => [m.type]) ++ b.construct.flatMap Signature.edges
      ++ b.call.flatMap Signature.edges ++ b.index.flatMap Signature.edges := by
    simp [edges, List.flatMap_singleton', ← List.map_eq_flatMap]
  rw [hedges]
  exact ((((shows_whenAny "typeParameters" shows_edge b.typeParameters).beside
    (shows_whenAny "members" Member.shows_toJson b.members)).beside
    (shows_whenAny "construct" Signature.shows_toJson b.construct)).beside
    (shows_whenAny "call" Signature.shows_toJson b.call)).beside
    (shows_whenAny "index" Signature.shows_toJson b.index)

theorem NodeKind.shows_toFields (k : NodeKind) : Shows (fieldObjects k.toFields) k.edges := by
  -- a list of edges shows each of them by itself
  have hlist : ∀ (name : String) (rs : List TypeRef),
      Shows (fieldObjects (Field.always name (.ofList TypeRef.toJson rs))) rs :=
    fun name rs => by simpa using (shows_ofList shows_edge rs).always name
  have hsome : ∀ (name : String) (rs : List TypeRef),
      Shows (fieldObjects (Field.whenAny name TypeRef.toJson rs)) rs :=
    fun name rs => by simpa using shows_whenAny name shows_edge rs
  have hoption : ∀ (name : String) (o : Option TypeRef),
      Shows (fieldObjects (Field.whenSome name TypeRef.toJson o)) o.toList :=
    fun name o => by simpa using shows_whenSome name shows_edge o
  cases k with
  | classNode body statics base implemented =>
    have hstatics := shows_whenAny "statics" Member.shows_toJson statics
    rw [← List.map_eq_flatMap] at hstatics
    exact ((body.shows_toFields.beside hstatics).beside (hoption "extends" base)).beside
      (hsome "implements" implemented)
  | interfaceNode body bases => exact body.shows_toFields.beside (hsome "extends" bases)
  | array elementType => exact (shows_edge elementType).always "elementType"
  | reference target typeArguments =>
    exact ((shows_edge target).always "type").beside (hlist "typeArguments" typeArguments)
  | union types => exact hlist "types" types
  | intersection types => exact hlist "types" types
  | tuple elements => exact hlist "elements" elements
  | function signatures =>
    exact (shows_ofList Signature.shows_toJson signatures).always "signatures"
  | typeLiteral body => exact body.shows_toFields
  | typeParameter constraint => exact hoption "constraint" constraint
  | expression target => exact (shows_edge target).always "type"

/-! ### Records -/

theorem TypeNode.shows_toJson (n : TypeNode) : Shows n.toJson.objectsBelow n.edges := by
  have hname : Shows (fieldObjects (Field.whenSome "name" Json.string n.name)) [] := by
    cases n.name <;> exact .nil
  exact ((shows_count n.slot.index).always "slot").beside
    (hname.beside (((shows_text n.kind.tag).always "kind").beside n.kind.shows_toFields))

/-- The objects below a record that a script takes for edges are, as they stand, the edges of
the record in the order of its fields, and each is written as its edge is.  No other object is
taken for an edge, in particular no member, no parameter and no signature. -/
theorem TypeNode.shows_edges (n : TypeNode) :
    n.toJson.objectsBelow.filterMap
        (fun fields => (edgeExpression? fields).map fun text => (Json.object fields, text))
      = n.edges.map (fun r => (r.toJson, edgeText r)) ∧
    (∀ fields ∈ n.toJson.objectsBelow, (∀ r ∈ n.edges, r.toJson ≠ .object fields) →
      edgeExpression? fields = none) ∧
    (∀ m : Member, edgeExpression? (fieldsOf m.toJson) = none) ∧
    (∀ p : Parameter, edgeExpression? (fieldsOf p.toJson) = none) ∧
    ∀ s : Signature, edgeExpression? (fieldsOf s.toJson) = none := by
  refine ⟨n.shows_toJson, fun fields hfields hother => ?_, fun m => ?_, fun p => ?_, fun s => ?_⟩
  · cases htext : edgeExpression? fields with
    | none => rfl
    | some text =>
      -- what is taken for an edge is one of the record's own
      have htaken : (Json.object fields, text) ∈ n.toJson.objectsBelow.filterMap taken? :=
        List.mem_filterMap.mpr ⟨fields, hfields, by rw [taken?, htext]; rfl⟩
      rw [n.shows_toJson] at htaken
      obtain ⟨r, hr, hshown⟩ := List.mem_map.mp htaken
      exact absurd (congrArg Prod.fst hshown) (hother r hr)
  · exact edgeExpression?_eq_none (by simp [Member.toJson, fieldsOf, Field.always])
  · exact edgeExpression?_eq_none (Nat.le_refl 2)
  · exact edgeExpression?_eq_none (by simp [Signature.toJson, fieldsOf, Field.always])

end TypeCatalog
