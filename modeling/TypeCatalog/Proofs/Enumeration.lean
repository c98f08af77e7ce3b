/-
Lists that have one item for each key.

`Enumerates R bs` says that a list has an item for everything that a relation
relates to a key, and no other items: the items can be keyed such that no key is
used twice and every key has the item it is related to.  Lists that are put
together of such lists again are lists of this sort, for the relations put
together in the same way.
-/
import Mathlib.Data.List.Nodup
import Mathlib.Logic.Function.Defs

namespace TypeCatalog

/-- The items of a list are, each of them once, what the keys are related to; their
order is not said. -/
def Enumerates {κ β : Type} (R : κ → β → Prop) (bs : List β) : Prop :=
  ∃ keyed : List (κ × β), (keyed.map Prod.snd).Perm bs ∧ (keyed.map Prod.fst).Nodup ∧
    ∀ k b, (k, b) ∈ keyed ↔ R k b

namespace Enumerates

variable {κ κ' α β γ : Type} {R R' : κ → β → Prop} {bs bs' : List β}

theorem perm (h : Enumerates R bs) (hp : bs.Perm bs') : Enumerates R bs' := by
  obtain ⟨keyed, hitems, hkeys, hmem⟩ := h
  exact ⟨keyed, hitems.trans hp, hkeys, hmem⟩

theorem congr (h : Enumerates R bs) (hR : ∀ k b, R k b ↔ R' k b) : Enumerates R' bs := by
  obtain ⟨keyed, hitems, hkeys, hmem⟩ := h
  exact ⟨keyed, hitems, hkeys, fun k b => (hmem k b).trans (hR k b)⟩

theorem nil (hR : ∀ k b, ¬ R k b) : Enumerates R [] :=
  ⟨[], .refl _, List.nodup_nil, fun k b => iff_of_false List.not_mem_nil (hR k b)⟩

theorem singleton (k : κ) (b : β) : Enumerates (fun k' b' => k' = k ∧ b = b') [b] :=
  ⟨[(k, b)], .refl _, List.nodup_singleton k, fun k' b' => by simp [eq_comm]⟩

/-- The items of a list by their places in it. -/
theorem getElem (bs : List β) : Enumerates (fun (i : Nat) b => bs[i]? = some b) bs := by
  have hswap : bs.zipIdx.map (Prod.snd ∘ Prod.swap) = bs := List.zipIdx_map_fst 0 bs
  have hplaces : bs.zipIdx.map (Prod.fst ∘ Prod.swap) = List.range bs.length :=
    (List.zipIdx_map_snd 0 bs).trans (List.range_eq_range' ..).symm
  refine ⟨bs.zipIdx.map Prod.swap, ?_, ?_, fun i b => ?_⟩
  · rw [List.map_map, hswap]
  · rw [List.map_map, hplaces]
    exact List.nodup_range
  · simp [List.mk_mem_zipIdx_iff_getElem?]

/-- Two lists one after the other, with keys of their own. -/
theorem append (h : Enumerates R bs) (h' : Enumerates R' bs')
    (hdisjoint : ∀ k b b', R k b → ¬ R' k b') :
    Enumerates (fun k b => R k b ∨ R' k b) (bs ++ bs') := by
  obtain ⟨keyed, hitems, hkeys, hmem⟩ := h
  obtain ⟨keyed', hitems', hkeys', hmem'⟩ := h'
  refine ⟨keyed ++ keyed', ?_, ?_, fun k b => ?_⟩
  · rw [List.map_append]
    exact hitems.append hitems'
  · rw [List.map_append]
    refine hkeys.append hkeys' fun k hk hk' => ?_
    obtain ⟨⟨_, b⟩, hb, rfl⟩ := List.mem_map.mp hk
    obtain ⟨⟨_, b'⟩, hb', rfl⟩ := List.mem_map.mp hk'
    exact hdisjoint _ b b' ((hmem _ b).mp hb) ((hmem' _ b').mp hb')
  · rw [List.mem_append, hmem, hmem']

/-- The same list with other keys. -/
theorem relabel {f : κ → κ'} (hf : f.Injective) (h : Enumerates R bs) :
    Enumerates (fun k' b => ∃ k, k' = f k ∧ R k b) bs := by
  obtain ⟨keyed, hitems, hkeys, hmem⟩ := h
  refine ⟨keyed.map (Prod.map f id), ?_, ?_, fun k' b => ?_⟩
  · rw [List.map_map]
    exact hitems
  · have hmap : (keyed.map (Prod.map f id)).map Prod.fst = (keyed.map Prod.fst).map f := by
      rw [List.map_map, List.map_map]
      rfl
    rw [hmap]
    exact hkeys.map hf
  · simp only [List.mem_map, Prod.exists, Prod.map_apply, id_eq, Prod.mk.injEq, hmem]
    constructor
    · rintro ⟨k, _, hR, rfl, rfl⟩
      exact ⟨k, rfl, hR⟩
    · rintro ⟨k, rfl, hR⟩
      exact ⟨k, b, hR, rfl, rfl⟩

/-- Another list follows, under keys that the first one does not have. -/
theorem appendUnder {f : κ → κ'} {R : κ' → β → Prop} {R' : κ → β → Prop} (hf : f.Injective)
    (h : Enumerates R bs) (h' : Enumerates R' bs') (hfresh : ∀ k b, ¬ R (f k) b) :
    Enumerates (fun k' b => R k' b ∨ ∃ k, k' = f k ∧ R' k b) (bs ++ bs') := by
  refine h.append (h'.relabel hf) ?_
  rintro _ b b' hR ⟨k, rfl, -⟩
  exact hfresh k b hR

/-- Some of the items are left out, and the others replaced. -/
theorem filterMap (f : β → Option γ) (h : Enumerates R bs) :
    Enumerates (fun k c => ∃ b, R k b ∧ f b = some c) (bs.filterMap f) := by
  obtain ⟨keyed, hitems, hkeys, hmem⟩ := h
  -- the keys that are left are some of the keys, in their order
  have hsub : ∀ keyed : List (κ × β),
      ((keyed.filterMap fun x => (f x.2).map (x.1, ·)).map Prod.fst).Sublist
        (keyed.map Prod.fst) := by
    intro keyed
    induction keyed with
    | nil => exact .refl _
    | cons x keyed ih =>
      rw [List.filterMap_cons, List.map_cons]
      cases f x.2 with
      | none => exact ih.cons _
      | some c => exact ih.cons_cons _
  refine ⟨keyed.filterMap fun x => (f x.2).map (x.1, ·), ?_, hkeys.sublist (hsub keyed),
    fun k c => ?_⟩
  · have hmap : (keyed.filterMap fun x => (f x.2).map (x.1, ·)).map Prod.snd
        = (keyed.map Prod.snd).filterMap f := by
      rw [List.map_filterMap, List.filterMap_map]
      refine List.filterMap_congr fun x _ => ?_
      rw [Option.map_map]
      exact Option.map_id'
    rw [hmap]
    exact hitems.filterMap f
  · simp only [List.mem_filterMap, Option.map_eq_some_iff, Prod.exists, Prod.mk.injEq, hmem]
    constructor
    · rintro ⟨_, b, hR, _, hf, rfl, rfl⟩
      exact ⟨b, hR, hf⟩
    · rintro ⟨b, hR, hf⟩
      exact ⟨k, b, hR, c, hf, rfl, rfl⟩

theorem map (f : β → γ) (h : Enumerates R bs) :
    Enumerates (fun k c => ∃ b, R k b ∧ f b = c) (bs.map f) := by
  rw [← List.filterMap_eq_map]
  exact (h.filterMap (some ∘ f)).congr fun k c => by simp

/-- Lists for the items of a list, one after the other; a key says for which of the
items, and which of the keys it has there. -/
theorem flatMap {R : α → κ → β → Prop} {g : α → List β} (as : List α)
    (h : ∀ a ∈ as, Enumerates (R a) (g a)) :
    Enumerates (fun (k : Nat × κ) b => ∃ a, as[k.1]? = some a ∧ R a k.2 b) (as.flatMap g) := by
  induction as with
  | nil => exact nil fun _ _ => nofun
  | cons a as ih =>
    obtain ⟨hfirst, hrest⟩ := List.forall_mem_cons.mp h
    have hstart : Function.Injective fun k : κ => (0, k) := fun _ _ h => (Prod.mk.inj h).2
    have hnext : Function.Injective fun k : Nat × κ => (k.1 + 1, k.2) := by
      rintro ⟨i, k⟩ ⟨j, l⟩ h
      simpa using h
    -- the keys of the first list say 0, and those of the others move on by one
    rw [List.flatMap_cons]
    refine ((hfirst.relabel hstart).appendUnder hnext (ih hrest) ?_).congr ?_
    · rintro k b ⟨k', hk, -⟩
      cases hk
    · rintro ⟨i, k⟩ b
      cases i with
      | zero => simp
      | succ i => simp

end Enumerates

end TypeCatalog
