import Infeasibility.Diagnosis.Method
import Infeasibility.Proofs.Conflict.Runs
import Infeasibility.Proofs.Diagnosis.Classification

/-! # All methods on declared conflicts

With the oracle of a table of conflicts each method comes to a conclusion about each problem within
the limits of the table, and it is sound. All methods therefore refuse the same problems for the
same reasons, with one exception: if not even nothing is free of conflicts, growth rejects all soft
constraints where there are no hard ones to blame. -/

namespace Infeasibility.Conflict

variable {table : Table} {problem : Problem Nat}

/-- The table is not made to fail, and the problem is within its limits. -/
structure Table.Handles (table : Table) (problem : Problem Nat) : Prop where
  failAt_eq_none : table.failAt = none
  softConstraints : table.softConstraints = true
  length_le : problem.soft.length ≤ maxSoftTerms
  lt_firstLink : ∀ atom ∈ problem.hard ++ problem.soft, atom < firstLink

/-- The method concludes something about the problem, and it is sound. -/
def Settles (method : Method) (table : Table) (problem : Problem Nat) : Prop :=
  ∃ result, (method.diagnose false problem).result oracle table = .ok result ∧
    problem.Sound (Free table.conflicts) (method.Finds problem (Free table.conflicts)) result ∧
    Problem.Conclusive result

/-- An inquiry that only asks about the problem is answered truthfully. -/
theorem Table.Handles.exists_result {ε α : Type} {x : Inquiry Nat (List Nat) Nat ε α}
    (h : table.Handles problem) (hasks : ∀ P, problem.QuestionsSatisfy P → x.run.Asks P)
    {state : Table} (hconflicts : state.conflicts = table.conflicts)
    (hfail : state.failAt = none) :
    ∃ result exchanges, x.result oracle state = .ok result ∧ x.run.Yields exchanges result ∧
      Truthful (Free table.conflicts) exchanges ∧ ∀ error, ¬ Failed exchanges error := by
  have hP := Problem.questionsSatisfy_isSolveOf (ι := Nat) h.lt_firstLink
  exact (decidesOn_atoms table.conflicts).exists_result (hasks _ hP) ⟨hconflicts, hfail⟩

/-! ## Deletion and growth -/

theorem settles_deletion (h : table.Handles problem) (hsoft : problem.soft ≠ []) :
    Settles .deletion table problem := by
  obtain ⟨result, exchanges, hresult, hyields, htrue, hfailed⟩ :=
    h.exists_result (fun _ hP => hP.asks_minimalCore false) rfl h.failAt_eq_none
  exact ⟨result, hresult, Problem.sound_minimalCore (hereditary_free _) htrue hyields,
    Problem.conclusive_of_yields_minimalCore hsoft hfailed hyields⟩

theorem settles_growth (h : table.Handles problem) (hsoft : problem.soft ≠ [])
    (hnil : Free table.conflicts []) : Settles .growth table problem := by
  obtain ⟨result, exchanges, hresult, hyields, htrue, hfailed⟩ :=
    h.exists_result (fun _ hP => hP.asks_correctionByGrowth false) rfl h.failAt_eq_none
  exact ⟨result, hresult,
    Problem.sound_correctionByGrowth (hereditary_free _) hnil htrue hyields,
    Problem.conclusive_of_yields_correctionByGrowth hsoft hfailed hyields⟩

/-- Growth blames hard constraints that are not free of conflicts, if there are any. Otherwise it
rejects everything. -/
theorem growth_of_not_free (h : table.Handles problem) (hsoft : problem.soft ≠ [])
    (hnot : ¬ Free table.conflicts problem.hard) :
    (problem.hard ≠ [] → (problem.correctionByGrowth false).result oracle table =
      .ok (.error (.invalidInput .hardUnsatisfiable))) ∧
    (problem.hard = [] → ∃ correction : Diagnosis problem.soft,
      correction.positions = List.range problem.soft.length ∧
        (problem.correctionByGrowth false).result oracle table = .ok (.ok correction)) := by
  obtain ⟨result, exchanges, hresult, hyields, htrue, hfailed⟩ :=
    h.exists_result (fun _ hP => hP.asks_correctionByGrowth false) rfl h.failAt_eq_none
  obtain ⟨hblamed, hrejected⟩ := Problem.correctionByGrowth_of_not_sat_hard
    (hereditary_free _) htrue hsoft hnot hfailed hyields
  rw [hresult]
  refine ⟨fun hhard => congrArg Except.ok (hblamed hhard), fun hhard => ?_⟩
  obtain ⟨correction, hall, rfl⟩ := hrejected hhard
  exact ⟨correction, hall, rfl⟩

/-! ## Optimization -/

/-- What is concluded from the best world of a problem is sound. -/
theorem exists_result_afterOptimum {hard : List Proposition}
    {terms : List (SoftTerm Proposition Nat)} (h : table.Handles problem)
    (hrepresents : Represents table.conflicts problem hard terms) (name : String) {state : Table}
    (hconflicts : state.conflicts = table.conflicts) (hfail : state.failAt = none) :
    ∃ result, problem.afterOptimum oracle false name
        (.ok (.ok (optimum table.conflicts hard terms)), state) = .ok result ∧
      problem.Sound (Free table.conflicts)
        (problem.IsSmallestCorrection (Free table.conflicts)) result ∧
      Problem.Conclusive result := by
  obtain ⟨result, exchanges, hresult, hyields, -, -⟩ :=
    h.exists_result (fun _ hP => hP.asks_correctionOfOptimum false name
      (optimum table.conflicts hard terms)) hconflicts hfail
  exact ⟨result, hresult, Problem.sound_correctionOfOptimum hrepresents.isRight hyields,
    Problem.conclusive_of_yields_correctionOfOptimum
      (fun _ _ hoptimum => hrepresents.length_eq_of_optimum hoptimum) hyields⟩

theorem settles_indicators (h : table.Handles problem) (hsoft : problem.soft ≠ []) :
    Settles .indicators table problem := by
  rw [Settles, Method.diagnose, Problem.result_correctionByIndicators hsoft,
    run_maximizeIndicators h.failAt_eq_none h.length_le h.lt_firstLink]
  exact exists_result_afterOptimum h (represents_nextIndicators table h.length_le) _ rfl
    h.failAt_eq_none

theorem settles_softTerms (h : table.Handles problem) (hsoft : problem.soft ≠ []) :
    Settles .softTerms table problem := by
  rw [Settles, Method.diagnose, Problem.result_correctionBySoftTerms hsoft h.softConstraints,
    maximize_atoms h.failAt_eq_none h.softConstraints h.length_le h.lt_firstLink]
  exact exists_result_afterOptimum h (represents_atoms _ _) _ rfl h.failAt_eq_none

/-! ## All methods -/

theorem settles (method : Method) (h : table.Handles problem) (hsoft : problem.soft ≠ [])
    (hgrowth : method = .growth → Free table.conflicts []) : Settles method table problem := by
  cases method with
  | deletion => exact settles_deletion h hsoft
  | growth => exact settles_growth h hsoft (hgrowth rfl)
  | indicators => exact settles_indicators h hsoft
  | softTerms => exact settles_softTerms h hsoft

/-- Each method refuses a problem that is free of conflicts as satisfiable, blames hard constraints
that are not, and has a diagnosis of all other problems; what a correction leaves is free of
conflicts. Only growth does not blame hard constraints where there are none: if not even nothing is
free of conflicts, it rejects everything. -/
theorem diagnose_verdicts (h : table.Handles problem) (hsoft : problem.soft ≠ []) :
    (Free table.conflicts (problem.hard ++ problem.soft) → ∀ method : Method,
      (method.diagnose false problem).result oracle table =
        .ok (.error (.invalidInput .satisfiable))) ∧
    (¬ Free table.conflicts problem.hard →
      (∀ method : Method, (method = .growth → problem.hard ≠ []) →
        (method.diagnose false problem).result oracle table =
          .ok (.error (.invalidInput .hardUnsatisfiable))) ∧
      (problem.hard = [] → ∃ correction : Diagnosis problem.soft,
        correction.positions = List.range problem.soft.length ∧
          (Method.growth.diagnose false problem).result oracle table = .ok (.ok correction))) ∧
    (Free table.conflicts problem.hard → ¬ Free table.conflicts (problem.hard ++ problem.soft) →
      ∀ method : Method, ∃ diagnosis : Diagnosis problem.soft,
        (method.diagnose false problem).result oracle table = .ok (.ok diagnosis) ∧
          (method.kind = .correction →
            Free table.conflicts (problem.select diagnosis.complement))) := by
  have hsat := hereditary_free table.conflicts
  refine ⟨fun hall method => ?_, fun hnot => ⟨fun method hgrowth => ?_, ?_⟩,
    fun hhard hnot method => ?_⟩
  · have hnil : Free table.conflicts [] := hall.mono (List.nil_subset _)
    obtain ⟨result, hresult, hsound, hconclusive⟩ := settles method h hsoft fun _ => hnil
    rw [hresult, (hsound.classifies method hsat hconclusive).satisfiable hall]
  · by_cases heq : method = .growth
    · subst heq
      exact (growth_of_not_free h hsoft hnot).1 (hgrowth rfl)
    · obtain ⟨result, hresult, hsound, hconclusive⟩ :=
        settles method h hsoft fun hgrowth => absurd hgrowth heq
      rw [hresult, (hsound.classifies method hsat hconclusive).hardUnsatisfiable hnot]
  · exact (growth_of_not_free h hsoft hnot).2
  · have hnil : Free table.conflicts [] := hhard.mono (List.nil_subset _)
    obtain ⟨result, hresult, hsound, hconclusive⟩ := settles method h hsoft fun _ => hnil
    obtain ⟨diagnosis, rfl⟩ :=
      (hsound.classifies method hsat hconclusive).diagnosis hhard hnot
    exact ⟨diagnosis, hresult, fun hkind => method.isCorrection_of_finds hkind hsound⟩

/-- Two soft constraints are in conflict, the hard one is in no conflict. -/
theorem diagnose_verdicts_of_pair :
    let table : Table := { conflicts := [[0, 1], [2]] }
    let problem : Problem Nat := { soft := [0, 1], hard := [3] }
    (table.Handles problem ∧ problem.soft ≠ []) ∧
    ∀ method : Method, ∃ diagnosis : Diagnosis problem.soft,
      (method.diagnose false problem).result oracle table = .ok (.ok diagnosis) ∧
        (method.kind = .correction →
          Free table.conflicts (problem.select diagnosis.complement)) := by
  intro table problem
  have hhandles : table.Handles problem := ⟨rfl, rfl, by decide, by decide⟩
  have hsoft : problem.soft ≠ [] := by decide
  have hhard : Free table.conflicts problem.hard := by
    unfold Free
    decide
  have hnot : ¬ Free table.conflicts (problem.hard ++ problem.soft) := by
    unfold Free
    decide
  obtain ⟨-, -, hdiagnosis⟩ := diagnose_verdicts hhandles hsoft
  exact ⟨⟨hhandles, hsoft⟩, hdiagnosis hhard hnot⟩

/-- The empty conflict makes even no hard constraints unsatisfiable. Growth does not ask about them,
and rejects the soft constraint. -/
theorem growth_rejects_under_empty_conflict :
    let table : Table := { conflicts := [[]] }
    let problem : Problem Nat := { soft := [0] }
    let correction : Diagnosis problem.soft := ⟨[0], by decide, by decide⟩
    let refusal : DiagnosisError := .invalidInput .hardUnsatisfiable
    table.Handles problem ∧ ¬ Free table.conflicts problem.hard ∧
    (Method.growth.diagnose false problem).result oracle table = .ok (.ok correction) ∧
    (Method.deletion.diagnose false problem).result oracle table = .ok (.error refusal) ∧
    (Method.indicators.diagnose false problem).result oracle table = .ok (.error refusal) ∧
    (Method.softTerms.diagnose false problem).result oracle table = .ok (.error refusal) := by
  intro table problem correction refusal
  refine ⟨⟨rfl, rfl, by decide, by decide⟩, ?_, ?_⟩
  · unfold Free
    decide
  · decide +kernel

end Infeasibility.Conflict
