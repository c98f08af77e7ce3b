/-
Computations that may fail, taken step by step.

A sequence of steps gives a result just if its first step does and the rest does
with what the first step gave.  A step for every member of a list succeeds if each of
them does (`mapM_eq_ok`); if the steps hand on a state, each has to succeed in the states
that come up (`foldlM_eq_ok`).
-/

namespace TypeCatalog

variable {ε α β σ : Type} {x : Except ε α} {a : α} {b : β} {l : List α} {s : σ}

theorem bind_of_eq_ok (h : x = .ok a) (f : α → Except ε β) : x >>= f = f a := by
  rw [h]
  rfl

theorem exists_of_bind_eq_ok {f : α → Except ε β} (h : x >>= f = .ok b) :
    ∃ a, x = .ok a ∧ f a = .ok b := by
  cases x with
  | error e => cases h
  | ok a => exact ⟨a, rfl, h⟩

theorem exists_of_map_eq_ok {f : α → β} (h : x.map f = .ok b) : ∃ a, x = .ok a ∧ f a = b := by
  cases x with
  | error e => cases h
  | ok a => exact ⟨a, rfl, Except.ok.inj h⟩

theorem mapM_eq_ok {f : α → Except ε β} {g : α → β} (h : ∀ a ∈ l, f a = .ok (g a)) :
    l.mapM f = .ok (l.map g) := by
  induction l with
  | nil => rfl
  | cons a rest ih =>
    rw [List.mapM_cons, bind_of_eq_ok (h a List.mem_cons_self),
      bind_of_eq_ok (ih fun a ha => h a (List.mem_cons_of_mem _ ha))]
    rfl

theorem filterMapM_eq_ok {f : α → Except ε (Option β)} {g : α → Option β}
    (h : ∀ a ∈ l, f a = .ok (g a)) : l.filterMapM f = .ok (l.filterMap g) := by
  induction l with
  | nil => rfl
  | cons a rest ih =>
    rw [List.filterMapM_cons, bind_of_eq_ok (h a List.mem_cons_self), List.filterMap_cons,
      ih fun a ha => h a (List.mem_cons_of_mem _ ha)]
    cases g a <;> rfl

/-- Steps that succeed and keep an invariant do what the steps without failure do. -/
theorem foldlM_eq_ok {f : σ → α → Except ε σ} {g : σ → α → σ} {P : σ → Prop}
    (h : ∀ s, ∀ a ∈ l, P s → f s a = .ok (g s a) ∧ P (g s a)) (hs : P s) :
    l.foldlM f s = .ok (l.foldl g s) ∧ P (l.foldl g s) := by
  induction l generalizing s with
  | nil => exact ⟨rfl, hs⟩
  | cons a rest ih =>
    obtain ⟨hstep, hs'⟩ := h s a List.mem_cons_self hs
    rw [List.foldlM_cons, bind_of_eq_ok hstep]
    exact ih (fun s a ha => h s a (List.mem_cons_of_mem _ ha)) hs'

end TypeCatalog
