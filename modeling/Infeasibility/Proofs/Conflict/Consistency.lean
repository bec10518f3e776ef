import Infeasibility.Conflict.World
import Infeasibility.Proofs.Diagnosis.Order

/-! # Consistency with declared conflicts -/

namespace Infeasibility.Conflict

/-- None of the conflicts is among the atoms. -/
def Free (conflicts : List (List Nat)) (atoms : List Nat) : Prop :=
  ∀ conflict ∈ conflicts, ¬ conflict ⊆ atoms

variable {conflicts : List (List Nat)}

/-- No conflict arises from leaving atoms out. -/
theorem Free.mono {atoms others : List Nat} (h : Free conflicts others)
    (hsubset : atoms ⊆ others) : Free conflicts atoms :=
  fun conflict hconflict hamong => h conflict hconflict (List.Subset.trans hamong hsubset)

theorem hereditary_free (conflicts : List (List Nat)) : Hereditary (Free conflicts) :=
  fun _ _ hsublist h => h.mono hsublist.subset

theorem isConsistent_iff {atoms : List Nat} (h : atoms.Pairwise (· < ·)) :
    isConsistent conflicts atoms ↔ Free conflicts atoms := by
  simp [isConsistent, Free, List.subset_def, Ascending.contains_iff h]

theorem isConsistent_ofList_iff {atoms : List Nat} :
    isConsistent conflicts (Ascending.ofList atoms) ↔ Free conflicts atoms := by
  rw [isConsistent_iff (Ascending.ofList_pairwise atoms), Free, Free]
  simp [List.subset_def]

theorem hereditary_isConsistent (conflicts : List (List Nat)) :
    Hereditary fun atoms => isConsistent conflicts (Ascending.ofList atoms) = true :=
  fun _ _ hsublist h =>
    isConsistent_ofList_iff.mpr (hereditary_free conflicts hsublist (isConsistent_ofList_iff.mp h))

end Infeasibility.Conflict
