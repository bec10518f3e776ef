import Infeasibility.Diagnosis.Minimality
import Mathlib.Data.List.Sort
import Mathlib.Data.Nat.Find
import Mathlib.Order.Minimal

/-! # Diagnoses as sets of positions

Diagnoses of one source are ordered by inclusion, and compared by the smallest position in which
they differ. Cores and corrections are defined for any predicate that tells which constraints
hold together. -/

namespace Infeasibility

/-- A strictly increasing list that contains the elements of another one contains it in order. -/
theorem sublist_of_forall_mem {xs ys : List Nat} (hx : xs.Pairwise (· < ·))
    (hy : ys.Pairwise (· < ·)) (h : ∀ x ∈ xs, x ∈ ys) : xs.Sublist ys :=
  List.sublist_of_subperm_of_pairwise (List.subperm_of_subset (hx.imp Nat.ne_of_lt) h) hx hy

namespace Diagnosis

variable {α : Type} {source : List α}

/-! ## Inclusion -/

theorem ext_of_mem_iff {first second : Diagnosis source}
    (h : ∀ position, position ∈ first.positions ↔ position ∈ second.positions) :
    first = second := by
  have hpositions : first.positions = second.positions :=
    List.Pairwise.eq_of_mem_iff first.increasing second.increasing h
  cases first
  cases second
  cases hpositions
  rfl

instance : PartialOrder (Diagnosis source) where
  le first second := ∀ position ∈ first.positions, position ∈ second.positions
  le_refl _ _ hmem := hmem
  le_trans _ _ _ h h' position hmem := h' position (h position hmem)
  le_antisymm _ _ h h' := ext_of_mem_iff fun position => ⟨h position, h' position⟩

theorem le_iff {first second : Diagnosis source} :
    first ≤ second ↔ ∀ position ∈ first.positions, position ∈ second.positions :=
  Iff.rfl

/-! ## The smallest difference -/

/-- The smallest position in which the diagnoses differ belongs to the first of them. -/
def Precedes (first second : Diagnosis source) : Prop :=
  ∃ position ∈ first.positions, position ∉ second.positions ∧
    ∀ earlier < position, earlier ∈ first.positions ↔ earlier ∈ second.positions

/-- Of two different diagnoses one precedes the other. -/
theorem precedes_or_precedes {first second : Diagnosis source} (h : first ≠ second) :
    first.Precedes second ∨ second.Precedes first := by
  have hdiff : ∃ position, ¬ (position ∈ first.positions ↔ position ∈ second.positions) := by
    by_contra hsame
    push Not at hsame
    exact h (ext_of_mem_iff hsame)
  have hposition := Nat.find_spec hdiff
  have hearlier : ∀ earlier < Nat.find hdiff,
      earlier ∈ first.positions ↔ earlier ∈ second.positions := by
    intro earlier hlt
    exact not_not.mp (Nat.find_min hdiff hlt)
  by_cases hfirst : Nat.find hdiff ∈ first.positions
  · have hsecond : Nat.find hdiff ∉ second.positions := by
      intro hsecond
      exact hposition (iff_of_true hfirst hsecond)
    exact .inl ⟨_, hfirst, hsecond, hearlier⟩
  · have hsecond : Nat.find hdiff ∈ second.positions := by
      by_contra hsecond
      exact hposition (iff_of_false hfirst hsecond)
    exact .inr ⟨_, hsecond, hfirst, fun earlier hlt => (hearlier earlier hlt).symm⟩

/-! ## Complements -/

@[simp] theorem contains_eq_true_iff {diagnosis : Diagnosis source} {position : Nat} :
    diagnosis.contains position = true ↔ position ∈ diagnosis.positions :=
  Ascending.contains_iff diagnosis.increasing

theorem mem_complement {diagnosis : Diagnosis source} {position : Nat} :
    position ∈ diagnosis.complement ↔
      position < source.length ∧ position ∉ diagnosis.positions := by
  simp [complement, ← contains_eq_true_iff]

theorem complement_pairwise (diagnosis : Diagnosis source) :
    diagnosis.complement.Pairwise (· < ·) :=
  List.pairwise_lt_range.filter _

/-- Nothing is missing from the complement of an empty diagnosis. -/
theorem complement_of_positions_eq_nil {diagnosis : Diagnosis source}
    (h : diagnosis.positions = []) : diagnosis.complement = List.range source.length := by
  refine List.filter_eq_self.mpr fun position _ => ?_
  simp [contains, h, Ascending.contains]

theorem positions_eq_filter (diagnosis : Diagnosis source) :
    diagnosis.positions = (List.range source.length).filter diagnosis.contains := by
  refine List.Pairwise.eq_of_mem_iff diagnosis.increasing (List.pairwise_lt_range.filter _) ?_
  intro position
  rw [List.mem_filter, List.mem_range, contains_eq_true_iff]
  exact ⟨fun hmem => ⟨diagnosis.lt_length position hmem, hmem⟩, And.right⟩

/-- Each position is either in a diagnosis or in its complement, and there once. -/
theorem positions_append_complement_perm (diagnosis : Diagnosis source) :
    (diagnosis.positions ++ diagnosis.complement).Perm (List.range source.length) := by
  rw [positions_eq_filter, complement]
  exact List.filter_append_perm diagnosis.contains (List.range source.length)

theorem size_add_length_complement (diagnosis : Diagnosis source) :
    diagnosis.size + diagnosis.complement.length = source.length := by
  have hlength := diagnosis.positions_append_complement_perm.length_eq
  rwa [List.length_append, List.length_range] at hlength

end Diagnosis

/-! ## Cores and corrections -/

/-- Constraints that hold together still do so if some of them are left out. -/
def Hereditary {C : Type} (sat : List C → Prop) : Prop :=
  ∀ ⦃xs ys : List C⦄, xs.Sublist ys → sat ys → sat xs

namespace Problem

variable {C : Type} {problem : Problem C}

theorem mem_select_iff {positions : List Nat} {c : C} :
    c ∈ problem.select positions ↔
      c ∈ problem.hard ∨ ∃ position ∈ positions, problem.soft[position]? = some c := by
  rw [select, List.mem_append, List.mem_filterMap]

theorem mem_of_mem_select {positions : List Nat} {c : C} (h : c ∈ problem.select positions) :
    c ∈ problem.hard ++ problem.soft := by
  rcases mem_select_iff.mp h with hhard | ⟨position, -, hget⟩
  · exact List.mem_append_left _ hhard
  · exact List.mem_append_right _ (List.mem_of_getElem? hget)

theorem select_sublist {xs ys : List Nat} (h : xs.Sublist ys) :
    (problem.select xs).Sublist (problem.select ys) :=
  (List.Sublist.refl problem.hard).append (h.filterMap _)

@[simp] theorem select_nil : problem.select [] = problem.hard := by
  simp [select]

theorem filterMap_getElem?_range (xs : List C) :
    (List.range xs.length).filterMap (xs[·]?) = xs := by
  induction xs with
  | nil => rfl
  | cons x xs ih =>
      rw [List.length_cons, List.range_succ_eq_map]
      simpa [Function.comp_def] using ih

/-- All positions select all constraints. -/
theorem select_range :
    problem.select (List.range problem.soft.length) = problem.hard ++ problem.soft := by
  rw [select, filterMap_getElem?_range]

variable (problem)

/-- The soft constraints of a core cannot hold together with the hard ones. -/
def IsCore (sat : List C → Prop) (core : Diagnosis problem.soft) : Prop :=
  ¬ sat (problem.select core.positions)

/-- Without the soft constraints of a correction the others hold together. -/
def IsCorrection (sat : List C → Prop) (correction : Diagnosis problem.soft) : Prop :=
  sat (problem.select correction.complement)

variable {problem}

theorem isCorrection_of_positions_eq_nil {sat : List C → Prop}
    {correction : Diagnosis problem.soft} (h : correction.positions = []) :
    problem.IsCorrection sat correction ↔ sat (problem.hard ++ problem.soft) := by
  rw [IsCorrection, Diagnosis.complement_of_positions_eq_nil h, select_range]

end Problem

end Infeasibility
