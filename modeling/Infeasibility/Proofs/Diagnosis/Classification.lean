import Infeasibility.Proofs.Diagnosis.Soundness

/-! # The three kinds of problems

The constraints of a problem hold together, or already the hard ones do not, or there is something
to diagnose. A sound result that is no error of the oracle tells which it is. -/

namespace Infeasibility

variable {C A ι : Type} {problem : Problem C} {sat : List C → Prop}

namespace Problem

variable {result : Except DiagnosisError (Diagnosis problem.soft)}
  {exchanges : List (Exchange C A ι)}

/-! ## What a result says about the problem -/

/-- The result is a diagnosis of something, or it refuses the problem for its constraints. -/
inductive Conclusive : Except DiagnosisError (Diagnosis problem.soft) → Prop where
  | satisfiable : Conclusive (.error (.invalidInput .satisfiable))
  | hardUnsatisfiable : Conclusive (.error (.invalidInput .hardUnsatisfiable))
  | diagnosis {diagnosis : Diagnosis problem.soft} : diagnosis.positions ≠ [] →
      Conclusive (.ok diagnosis)

/-- The result is a diagnosis if there is something to diagnose, and else the refusal that is
due. -/
structure Classifies (problem : Problem C) (sat : List C → Prop)
    (result : Except DiagnosisError (Diagnosis problem.soft)) : Prop where
  satisfiable : sat (problem.hard ++ problem.soft) →
    result = .error (.invalidInput .satisfiable)
  hardUnsatisfiable : ¬ sat problem.hard → result = .error (.invalidInput .hardUnsatisfiable)
  diagnosis : sat problem.hard → ¬ sat (problem.hard ++ problem.soft) →
    ∃ diagnosis, result = .ok diagnosis

theorem sat_hard_of_sat (hsat : Hereditary sat) (h : sat (problem.hard ++ problem.soft)) :
    sat problem.hard :=
  hsat (List.sublist_append_left _ _) h

/-- The diagnosis that points out nothing. -/
def nothing (problem : Problem C) : Diagnosis problem.soft :=
  ⟨[], .nil, by simp⟩

theorem positions_eq_nil_of_le_nothing {diagnosis : Diagnosis problem.soft}
    (h : diagnosis ≤ problem.nothing) : diagnosis.positions = [] :=
  List.eq_nil_iff_forall_not_mem.mpr fun position hmem =>
    List.not_mem_nil (Diagnosis.le_iff.mp h position hmem)

/-! ## Problems with a diagnosis -/

theorem sat_of_minimal_core (hsat : Hereditary sat) {core : Diagnosis problem.soft}
    (hne : core.positions ≠ []) (h : Minimal (problem.IsCore sat) core) :
    sat problem.hard ∧ ¬ sat (problem.hard ++ problem.soft) := by
  constructor
  · by_contra hhard
    have hnothing : problem.IsCore sat problem.nothing := by
      rwa [IsCore, nothing, select_nil]
    have hle : core ≤ problem.nothing := h.2 hnothing (by simp [Diagnosis.le_iff, nothing])
    exact hne (positions_eq_nil_of_le_nothing hle)
  · intro hall
    rw [← select_range] at hall
    refine h.1 (hsat (select_sublist ?_) hall)
    refine sublist_of_forall_mem core.increasing List.pairwise_lt_range fun position hmem => ?_
    exact List.mem_range.mpr (core.lt_length position hmem)

theorem sat_of_minimal_correction (hsat : Hereditary sat) {correction : Diagnosis problem.soft}
    (hne : correction.positions ≠ []) (h : Minimal (problem.IsCorrection sat) correction) :
    sat problem.hard ∧ ¬ sat (problem.hard ++ problem.soft) := by
  constructor
  · exact hsat (List.sublist_append_left _ _) h.1
  · intro hall
    have hnothing : problem.IsCorrection sat problem.nothing :=
      (isCorrection_of_positions_eq_nil rfl).mpr hall
    have hle : correction ≤ problem.nothing :=
      h.2 hnothing (by simp [Diagnosis.le_iff, nothing])
    exact hne (positions_eq_nil_of_le_nothing hle)

end Problem

theorem Method.isCorrection_of_finds (method : Method) (hkind : method.kind = .correction)
    {diagnosis : Diagnosis problem.soft} (h : method.Finds problem sat diagnosis) :
    problem.IsCorrection sat diagnosis := by
  cases method with
  | deletion => cases hkind
  | growth => exact h.1
  | indicators => exact h.1.1
  | softTerms => exact h.1.1

/-- Whatever a method is meant to find, there is nothing of it in the problems that are refused. -/
theorem Method.sat_of_finds (method : Method) (hsat : Hereditary sat)
    {diagnosis : Diagnosis problem.soft} (hne : diagnosis.positions ≠ [])
    (h : method.Finds problem sat diagnosis) :
    sat problem.hard ∧ ¬ sat (problem.hard ++ problem.soft) := by
  cases method with
  | deletion => exact Problem.sat_of_minimal_core hsat hne h
  | growth => exact Problem.sat_of_minimal_correction hsat hne h
  | indicators => exact Problem.sat_of_minimal_correction hsat hne h.1
  | softTerms => exact Problem.sat_of_minimal_correction hsat hne h.1

namespace Problem

variable {result : Except DiagnosisError (Diagnosis problem.soft)}
  {exchanges : List (Exchange C A ι)}

theorem Sound.classifies (method : Method) (hsat : Hereditary sat)
    (hsound : problem.Sound sat (method.Finds problem sat) result)
    (hconclusive : Conclusive result) : problem.Classifies sat result := by
  cases hconclusive with
  | satisfiable =>
      have hall : sat (problem.hard ++ problem.soft) := hsound
      exact ⟨fun _ => rfl, fun hnot => absurd (sat_hard_of_sat hsat hall) hnot,
        fun _ hnot => absurd hall hnot⟩
  | hardUnsatisfiable =>
      have hhard : ¬ sat problem.hard := hsound
      exact ⟨fun hall => absurd (sat_hard_of_sat hsat hall) hhard, fun _ => rfl,
        fun h _ => absurd h hhard⟩
  | @diagnosis diagnosis hne =>
      obtain ⟨hhard, hnot⟩ := method.sat_of_finds hsat hne hsound
      exact ⟨fun hall => absurd hall hnot, fun h => absurd hhard h, fun _ _ => ⟨diagnosis, rfl⟩⟩

/-! ## Results without verification -/

theorem conclusive_of_yields_minimalCore (hsoft : problem.soft ≠ [])
    (hfailed : ∀ error, ¬ Failed exchanges error)
    (h : (problem.minimalCore false).run.Yields exchanges result) : Conclusive result := by
  rcases yields_minimalCore hsoft h with
    ⟨error, rfl, hverify | hfail⟩ | ⟨-, rfl⟩ | ⟨-, rfl⟩ | ⟨core, hne, -, rfl⟩
  · cases hverify
  · exact absurd hfail (hfailed error)
  · exact .satisfiable
  · exact .hardUnsatisfiable
  · exact .diagnosis hne

theorem conclusive_of_yields_correctionByGrowth (hsoft : problem.soft ≠ [])
    (hfailed : ∀ error, ¬ Failed exchanges error)
    (h : (problem.correctionByGrowth false).run.Yields exchanges result) :
    Conclusive result := by
  rcases yields_correctionByGrowth hsoft h with
    ⟨error, rfl, hverify | hfail⟩ | ⟨-, rfl⟩ | ⟨-, correction, -, ⟨-, rfl⟩ | ⟨hne, rfl⟩⟩
  · cases hverify
  · exact absurd hfail (hfailed error)
  · exact .hardUnsatisfiable
  · exact .satisfiable
  · exact .diagnosis hne

theorem conclusive_of_yields_correctionOfOptimum {terms : String} {optimum : Optimum A}
    (hlength : ∀ satisfied assignment, optimum = .optimal satisfied assignment →
      satisfied.length = problem.soft.length)
    (h : (problem.correctionOfOptimum false terms optimum).run.Yields exchanges result) :
    Conclusive result := by
  cases optimum with
  | unsatisfiable =>
      obtain ⟨-, rfl⟩ := Dialogue.yields_done_iff.mp h
      exact .hardUnsatisfiable
  | optimal satisfied assignment =>
      rw [correctionOfOptimum, if_pos (hlength satisfied assignment rfl)] at h
      rcases yields_reject h with
        ⟨-, rfl⟩ | ⟨correction, hpositions, hne, rfl⟩ | ⟨hverify, -⟩
      · exact .satisfiable
      · exact .diagnosis (hpositions ▸ hne)
      · cases hverify

/-- Growth does not ask about hard constraints where there are none, and never blames them. -/
theorem ne_hardUnsatisfiable_of_hard_eq_nil {verify : Bool} (hhard : problem.hard = [])
    (h : (problem.correctionByGrowth verify).run.Yields exchanges result) :
    result ≠ .error (.invalidInput .hardUnsatisfiable) := by
  by_cases hsoft : problem.soft = []
  · rw [result_of_eq_nil hsoft h]
    simp
  have hrequired : (problem.requireHard : Inquiry C A ι DiagnosisError Unit) = pure () := by
    simp [requireHard, hhard]
  rw [correctionByGrowth, requireSoft_of_ne_nil hsoft, pure_bind, hrequired, pure_bind] at h
  rcases Inquiry.yields_bind_iff.mp h with
    ⟨error, hgrow, rfl⟩ | ⟨first, second, rejected, rfl, -, hreject⟩
  · obtain ⟨cause, rfl, -⟩ := Inquiry.yields_orUnavailable_error_iff.mp hgrow
    simp
  · rcases yields_reject hreject with ⟨-, rfl⟩ | ⟨_, -, -, rfl⟩ | ⟨-, _, rfl⟩ <;> simp

/-- If the hard constraints cannot hold growth says so, unless there are none: then not even
nothing can hold, and everything is rejected. -/
theorem correctionByGrowth_of_not_sat_hard (hsat : Hereditary sat)
    (htrue : Truthful sat exchanges) (hsoft : problem.soft ≠ []) (hnot : ¬ sat problem.hard)
    (hfailed : ∀ error, ¬ Failed exchanges error)
    (h : (problem.correctionByGrowth false).run.Yields exchanges result) :
    (problem.hard ≠ [] → result = .error (.invalidInput .hardUnsatisfiable)) ∧
      (problem.hard = [] → ∃ correction : Diagnosis problem.soft,
        correction.positions = List.range problem.soft.length ∧ result = .ok correction) := by
  rcases yields_correctionByGrowth hsoft h with
    ⟨error, rfl, hverify | hfail⟩ | ⟨-, rfl⟩ | ⟨hasked, correction, hverdicts, hend⟩
  · cases hverify
  · exact absurd hfail (hfailed error)
  · exact ⟨fun _ => rfl, fun hhard => absurd rfl (ne_hardUnsatisfiable_of_hard_eq_nil hhard h)⟩
  constructor
  · intro hhard
    exact absurd (htrue.sat (hasked.resolve_left hhard)) hnot
  · intro _
    -- Whatever is kept would have to hold together with the hard constraints.
    have hnone : correction.complement = [] := by
      refine hverdicts.left.resolve_right fun hverdict => hnot ?_
      exact hsat (List.sublist_append_left _ _) (htrue.sat hverdict)
    have hall : correction.positions = List.range problem.soft.length := by
      refine List.Pairwise.eq_of_mem_iff correction.increasing List.pairwise_lt_range ?_
      intro position
      rw [List.mem_range]
      refine ⟨correction.lt_length position, fun hlt => ?_⟩
      by_contra hmem
      have hkept := Diagnosis.mem_complement.mpr ⟨hlt, hmem⟩
      rw [hnone] at hkept
      exact List.not_mem_nil hkept
    rcases hend with ⟨hempty, -⟩ | ⟨-, rfl⟩
    · rw [hempty, eq_comm, List.range_eq_nil, List.length_eq_zero_iff] at hall
      exact absurd hall hsoft
    · exact ⟨correction, hall, rfl⟩

end Problem

end Infeasibility
