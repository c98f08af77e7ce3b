/-
The characters of plain names.
-/
import TypeCatalog.Identifier

namespace TypeCatalog

namespace Identifier

variable {name : String} {c : Char}

/-- A sanitized name consists of characters that may stand in a name. -/
theorem continuesName_of_mem_sanitize (hc : c ∈ (sanitize name).toList) :
    continuesName c = true := by
  unfold sanitize at hc
  cases hname : name.toList with
  | nil => simp [hname] at hc
  | cons first rest =>
    rw [hname, String.toList_ofList, List.mem_cons, List.mem_map] at hc
    obtain rfl | ⟨c', -, rfl⟩ := hc
    · split
      · rename_i hstarts
        rw [continuesName, hstarts, Bool.true_or]
      · decide
    · split
      · assumption
      · decide

theorem continuesName_of_isPlain (h : isPlain name = true) (hc : c ∈ name.toList) :
    continuesName c = true := by
  have hsame : sanitize name = name := by simpa using (Bool.and_eq_true_iff.mp h).2
  exact continuesName_of_mem_sanitize (hsame.symm ▸ hc)

theorem toList_ne_nil_of_isPlain (h : isPlain name = true) : name.toList ≠ [] := by
  have hne : name ≠ "" := by simpa using (Bool.and_eq_true_iff.mp h).1
  rwa [ne_eq, String.toList_eq_nil_iff]

/-- A character that may not stand in a name does not stand in a plain one. -/
theorem notMem_of_isPlain (h : isPlain name = true) (hc : continuesName c = false) :
    c ∉ name.toList := by
  intro hmem
  rw [continuesName_of_isPlain h hmem] at hc
  cases hc

end Identifier

end TypeCatalog
