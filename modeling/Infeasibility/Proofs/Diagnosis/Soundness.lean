import Infeasibility.Diagnosis.Method
import Infeasibility.Proofs.Diagnosis.Deletion
import Infeasibility.Proofs.Diagnosis.Growth
import Mathlib.Data.Bool.Count

/-! # Soundness of a conclusion

A method is sound if its diagnoses are what it is meant to find, and if it has good reasons to
refuse a problem. Deletion and growth are sound whenever the verdicts they get are true, and the
other methods whenever the optimum is one. -/

namespace Infeasibility

variable {σ C A ι : Type} {problem : Problem C} {sat : List C → Prop}

/-! ## What is sound -/

namespace Problem

variable (problem sat)

/-- A minimal correction, and none is smaller. -/
def IsSmallestCorrection (correction : Diagnosis problem.soft) : Prop :=
  Minimal (problem.IsCorrection sat) correction ∧
    ∀ other, problem.IsCorrection sat other → correction.size ≤ other.size

/-- A diagnosis has a property, a problem that is refused as satisfiable is satisfiable, and one
that is refused for its hard constraints has unsatisfiable ones. -/
def Sound (good : Diagnosis problem.soft → Prop) :
    Except DiagnosisError (Diagnosis problem.soft) → Prop
  | .ok diagnosis => good diagnosis
  | .error (.invalidInput .satisfiable) => sat (problem.hard ++ problem.soft)
  | .error (.invalidInput .hardUnsatisfiable) => ¬ sat problem.hard
  | .error _ => True

end Problem

/-- What a method is meant to find. -/
def Method.Finds (method : Method) (problem : Problem C) (sat : List C → Prop) :
    Diagnosis problem.soft → Prop :=
  match method with
  | deletion => Minimal (problem.IsCore sat)
  | growth => Minimal (problem.IsCorrection sat)
  | indicators | softTerms => problem.IsSmallestCorrection sat

namespace Problem

/-! ## Deletion and growth -/

variable {exchanges : List (Exchange C A ι)} {verify : Bool}
  {result : Except DiagnosisError (Diagnosis problem.soft)}

theorem sound_minimalCore (hsat : Hereditary sat) (htrue : Truthful sat exchanges)
    (h : (problem.minimalCore verify).run.Yields exchanges result) :
    problem.Sound sat (Minimal (problem.IsCore sat)) result := by
  by_cases hsoft : problem.soft = []
  · rw [result_of_eq_nil hsoft h]
    trivial
  rcases yields_minimalCore hsoft h with
    ⟨error, rfl, -⟩ | ⟨hall, rfl⟩ | ⟨hverdicts, rfl⟩ | ⟨core, -, hverdicts, rfl⟩
  · trivial
  · exact htrue.sat hall
  · intro hhard
    exact (hverdicts.sat_hard_iff hsat htrue).mp hhard rfl
  · exact hverdicts.minimal hsat htrue

theorem sound_correctionByGrowth (hsat : Hereditary sat) (hnil : sat [])
    (htrue : Truthful sat exchanges)
    (h : (problem.correctionByGrowth verify).run.Yields exchanges result) :
    problem.Sound sat (Minimal (problem.IsCorrection sat)) result := by
  by_cases hsoft : problem.soft = []
  · rw [result_of_eq_nil hsoft h]
    trivial
  rcases yields_correctionByGrowth hsoft h with
    ⟨error, rfl, -⟩ | ⟨hverdict, rfl⟩ | ⟨hasked, correction, hverdicts, hend⟩
  · trivial
  · exact htrue.unsat hverdict
  have hhard : sat problem.hard := by
    rcases hasked with heq | hverdict
    · rwa [heq]
    · exact htrue.sat hverdict
  rcases hend with ⟨hempty, rfl⟩ | ⟨-, rfl⟩
  · exact (hverdicts.positions_eq_nil_iff hsat htrue hhard).mp hempty
  · exact hverdicts.minimal hsat htrue hhard

/-! ## Optimization -/

theorem mem_filter_range_iff {satisfied : List Bool} {truth : Bool} {position : Nat} :
    position ∈ ((List.range satisfied.length).filter fun position =>
      satisfied[position]? == some truth) ↔ satisfied[position]? = some truth := by
  rw [List.mem_filter, List.mem_range, beq_iff_eq]
  exact and_iff_right_of_imp fun h => (List.getElem?_eq_some_iff.mp h).1

theorem mem_falsePositions_iff {satisfied : List Bool} {position : Nat} :
    position ∈ falsePositions satisfied ↔ satisfied[position]? = some false :=
  mem_filter_range_iff

/-- What is not satisfied is rejected. -/
theorem length_falsePositions (satisfied : List Bool) :
    (falsePositions satisfied).length + satisfied.count true = satisfied.length := by
  have hmap : (List.range satisfied.length).map (satisfied[·]?) = satisfied.map some := by
    refine List.ext_getElem (by simp) fun position hposition _ => ?_
    have hlt : position < satisfied.length := by simpa using hposition
    simp [hlt]
  have hfalse : (falsePositions satisfied).length = satisfied.count false := by
    calc (falsePositions satisfied).length
      _ = ((List.range satisfied.length).map (satisfied[·]?)).countP (· == some false) := by
        rw [List.countP_map]
        exact List.countP_eq_length_filter.symm
      _ = satisfied.count false := by
        rw [hmap, List.countP_map, List.count_eq_countP]
        exact List.countP_congr fun truth _ => by simp
  rw [hfalse]
  exact List.count_false_add_count_true satisfied

/-- No more is false than a correction rejects if everything else is true. -/
theorem length_falsePositions_le_size {satisfied : List Bool} {correction : Diagnosis problem.soft}
    (hlength : satisfied.length = problem.soft.length)
    (h : ∀ position ∈ correction.complement, satisfied[position]? = some true) :
    (falsePositions satisfied).length ≤ correction.size := by
  have hsublist := falsePositions_sublist satisfied
  have hrejected : (falsePositions satisfied).Sublist correction.positions := by
    refine sublist_of_forall_mem (List.pairwise_lt_range.sublist hsublist) correction.increasing ?_
    intro position hmem
    by_contra hnot
    have hlt : position < problem.soft.length := by
      rw [← hlength]
      exact List.mem_range.mp (hsublist.subset hmem)
    have htrue := h position (Diagnosis.mem_complement.mpr ⟨hlt, hnot⟩)
    rw [mem_falsePositions_iff.mp hmem] at htrue
    cases htrue
  exact hrejected.length_le

/-- A correction of which none is smaller is minimal. -/
theorem IsCorrection.isSmallest {correction : Diagnosis problem.soft}
    (h : problem.IsCorrection sat correction)
    (hle : ∀ other, problem.IsCorrection sat other → correction.size ≤ other.size) :
    problem.IsSmallestCorrection sat correction := by
  refine ⟨⟨h, fun other hother hsubset => ?_⟩, hle⟩
  have hsublist : other.positions.Sublist correction.positions :=
    sublist_of_forall_mem other.increasing correction.increasing hsubset
  have heq : other.positions = correction.positions :=
    hsublist.eq_of_length_le (hle other hother)
  exact Diagnosis.le_iff.mpr fun position hmem => heq ▸ hmem

/-- The truth values of the soft constraints are those of an optimum: what is false is a
correction, and none is smaller. -/
structure IsOptimum (problem : Problem C) (sat : List C → Prop) (satisfied : List Bool) :
    Prop where
  isCorrection : ∀ correction : Diagnosis problem.soft,
    correction.positions = falsePositions satisfied → problem.IsCorrection sat correction
  length_le : ∀ correction, problem.IsCorrection sat correction →
    (falsePositions satisfied).length ≤ correction.size

theorem sound_reject {satisfied : List Bool} (hoptimum : problem.IsOptimum sat satisfied)
    (h : (problem.reject verify (falsePositions satisfied)).run.Yields exchanges result) :
    problem.Sound sat (problem.IsSmallestCorrection sat) result := by
  rcases yields_reject h with
    ⟨hempty, rfl⟩ | ⟨correction, hpositions, -, rfl⟩ | ⟨-, error, rfl⟩
  · have hnothing := hoptimum.isCorrection ⟨[], .nil, by simp⟩ hempty.symm
    exact (isCorrection_of_positions_eq_nil rfl).mp hnothing
  · refine (hoptimum.isCorrection correction hpositions).isSmallest fun other hother => ?_
    rw [Diagnosis.size, hpositions]
    exact hoptimum.length_le other hother
  · trivial

/-- The verdict is right: either the hard constraints are unsatisfiable, or it is an optimum. -/
def IsRight (problem : Problem C) (sat : List C → Prop) : Optimum A → Prop
  | .unsatisfiable => ¬ sat problem.hard
  | .optimal satisfied _ => problem.IsOptimum sat satisfied

theorem sound_correctionOfOptimum {terms : String} {optimum : Optimum A}
    (hright : problem.IsRight sat optimum)
    (h : (problem.correctionOfOptimum verify terms optimum).run.Yields exchanges result) :
    problem.Sound sat (problem.IsSmallestCorrection sat) result := by
  cases optimum with
  | unsatisfiable =>
      obtain ⟨-, rfl⟩ := Dialogue.yields_done_iff.mp h
      exact hright
  | optimal satisfied assignment =>
      rw [correctionOfOptimum] at h
      split at h
      · exact sound_reject hright h
      · obtain ⟨-, rfl⟩ := Dialogue.yields_done_iff.mp h
        trivial

end Problem

end Infeasibility
