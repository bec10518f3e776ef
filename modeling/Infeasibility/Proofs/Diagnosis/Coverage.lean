import Infeasibility.Proofs.Diagnosis.Deletion
import Infeasibility.Proofs.Diagnosis.Growth
import Infeasibility.Proofs.Diagnosis.Verification

/-! # Constraints that a diagnosis rests on

Deletion and growth find a diagnosis only after verdicts in which each constraint of the problem
occurs, and so does a correction that is verified. A constraint on which there can be no verdict
leaves these without a result. -/

namespace Infeasibility

variable {C A ι : Type}

/-- There is a verdict among the exchanges on constraints that include the given one. -/
def Covered (exchanges : List (Exchange C A ι)) (c : C) : Prop :=
  ∃ constraints satisfiable, Answered exchanges constraints satisfiable ∧ c ∈ constraints

theorem Covered.append_left {first second : List (Exchange C A ι)} {c : C}
    (h : Covered second c) : Covered (first ++ second) c := by
  obtain ⟨constraints, satisfiable, hanswered, hc⟩ := h
  exact ⟨constraints, satisfiable, hanswered.append_left, hc⟩

namespace Problem

variable {problem : Problem C} {exchanges : List (Exchange C A ι)} {c : C}

theorem getElem_mem_select {position : Nat} (hlt : position < problem.soft.length)
    {positions : List Nat} (h : position ∈ positions) :
    problem.soft[position] ∈ problem.select positions :=
  mem_select_iff.mpr (.inr ⟨position, h, List.getElem?_eq_getElem hlt⟩)

theorem covered_of_minimalCore {verify : Bool} {core : Diagnosis problem.soft}
    (h : (problem.minimalCore verify).run.Yields exchanges (.ok core))
    (hc : c ∈ problem.hard ++ problem.soft) : Covered exchanges c := by
  have hsoft : problem.soft ≠ [] := soft_ne_nil_of_yields_ok h
  rcases yields_minimalCore hsoft h with
    ⟨error, herror, -⟩ | ⟨-, herror⟩ | ⟨-, herror⟩ | ⟨found, -, hverdicts, -⟩
  · cases herror
  · cases herror
  · cases herror
  · exact ⟨_, _, hverdicts.all, hc⟩

/-- Verdicts against each element of a correction, and one on the rest, cover everything. -/
theorem covered_of_answered {correction : Diagnosis problem.soft}
    (hne : correction.positions ≠ [])
    (hagainst : ∀ position ∈ correction.positions, ∃ positions satisfiable,
      Answered exchanges (problem.select positions) satisfiable ∧ position ∈ positions)
    (hleft : correction.complement = [] ∨
      ∃ satisfiable, Answered exchanges (problem.select correction.complement) satisfiable)
    (hc : c ∈ problem.hard ++ problem.soft) : Covered exchanges c := by
  rcases List.mem_append.mp hc with hhard | hsoft
  · obtain ⟨position, hmem⟩ := List.exists_mem_of_ne_nil _ hne
    obtain ⟨positions, satisfiable, hverdict, -⟩ := hagainst position hmem
    exact ⟨_, _, hverdict, mem_select_iff.mpr (.inl hhard)⟩
  · obtain ⟨position, hlt, rfl⟩ := List.mem_iff_getElem.mp hsoft
    by_cases hmem : position ∈ correction.positions
    · obtain ⟨positions, satisfiable, hverdict, hasked⟩ := hagainst position hmem
      exact ⟨_, _, hverdict, getElem_mem_select hlt hasked⟩
    · have hkept : position ∈ correction.complement :=
        Diagnosis.mem_complement.mpr ⟨hlt, hmem⟩
      rcases hleft with hnil | ⟨satisfiable, hverdict⟩
      · rw [hnil] at hkept
        exact absurd hkept List.not_mem_nil
      · exact ⟨_, _, hverdict, getElem_mem_select hlt hkept⟩

theorem covered_of_correctionByGrowth {verify : Bool} {correction : Diagnosis problem.soft}
    (h : (problem.correctionByGrowth verify).run.Yields exchanges (.ok correction))
    (hc : c ∈ problem.hard ++ problem.soft) : Covered exchanges c := by
  have hsoft : problem.soft ≠ [] := soft_ne_nil_of_yields_ok h
  rcases yields_correctionByGrowth hsoft h with
    ⟨error, herror, -⟩ | ⟨-, herror⟩ | ⟨-, found, hverdicts, hend⟩
  · cases herror
  · cases herror
  rcases hend with ⟨-, herror⟩ | ⟨hne, -⟩
  · cases herror
  · refine covered_of_answered hne (fun position hmem => ?_) ?_ hc
    · exact ⟨_, _, hverdicts.against position hmem, by simp⟩
    · exact hverdicts.left.imp_right fun hverdict => ⟨_, hverdict⟩

theorem Certified.covered {correction : Diagnosis problem.soft}
    (h : problem.Certified .correction correction exchanges) (hne : correction.positions ≠ [])
    (hc : c ∈ problem.hard ++ problem.soft) : Covered exchanges c := by
  refine covered_of_answered hne (fun position hmem => ?_) ?_ hc
  · have hverdict := h.answered (List.mem_cons_of_mem _ (List.mem_map_of_mem hmem))
    exact ⟨_, _, hverdict, Ascending.mem_insert.mpr (.inl rfl)⟩
  · exact .inr ⟨_, h.answered List.mem_cons_self⟩

end Problem

end Infeasibility
