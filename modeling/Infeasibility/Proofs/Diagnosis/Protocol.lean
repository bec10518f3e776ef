import Infeasibility.Diagnosis.Correction
import Infeasibility.Proofs.Diagnosis.Order
import Infeasibility.Proofs.Dialogue.Failure

/-! # What all methods have in common

A method refuses a problem without soft constraints before it asks anything. Its questions are
about strictly increasing positions, also when a diagnosis is verified. Verification does not
change what is concluded: the diagnosis has the positions that were found. -/

namespace Infeasibility.Problem

variable {C A ι : Type} {problem : Problem C}

/-! ## Problems without soft constraints -/

theorem requireSoft_of_eq_nil (h : problem.soft = []) :
    (problem.requireSoft : Inquiry C A ι DiagnosisError Unit) = throw (.invalidInput .empty) := by
  simp [requireSoft, h]

theorem requireSoft_of_ne_nil (h : problem.soft ≠ []) :
    (problem.requireSoft : Inquiry C A ι DiagnosisError Unit) = pure () := by
  simp [requireSoft, h]

theorem result_of_eq_nil {x : Inquiry C A ι DiagnosisError (Diagnosis problem.soft)}
    {exchanges : List (Exchange C A ι)} {result : Except DiagnosisError (Diagnosis problem.soft)}
    (hsoft : problem.soft = [])
    (h : (problem.requireSoft >>= fun _ => x).run.Yields exchanges result) :
    result = .error (.invalidInput .empty) := by
  rw [requireSoft_of_eq_nil hsoft] at h
  exact (Dialogue.yields_done_iff.mp h).2

/-- There is a diagnosis only if there is something to diagnose. -/
theorem soft_ne_nil_of_yields_ok {x : Inquiry C A ι DiagnosisError (Diagnosis problem.soft)}
    {exchanges : List (Exchange C A ι)} {diagnosis : Diagnosis problem.soft}
    (h : (problem.requireSoft >>= fun _ => x).run.Yields exchanges (.ok diagnosis)) :
    problem.soft ≠ [] := by
  intro hsoft
  cases result_of_eq_nil hsoft h

/-! ## What is asked -/

/-- The property holds of all questions about strictly increasing positions of the problem. -/
def QuestionsSatisfy (problem : Problem C) (P : Question C ι → Prop) : Prop :=
  ∀ positions : List Nat, positions.Pairwise (· < ·) →
    (∀ position ∈ positions, position < problem.soft.length) →
    P (.solve (problem.select positions))

theorem questionsSatisfy_isSolve : problem.QuestionsSatisfy (Question.IsSolve (ι := ι)) :=
  fun _ _ _ => ⟨_, rfl⟩

/-- Only constraints of the problem are asked about. -/
theorem questionsSatisfy_isSolveOf {P : C → Prop} (h : ∀ c ∈ problem.hard ++ problem.soft, P c) :
    problem.QuestionsSatisfy (Question.IsSolveOf (ι := ι) fun constraints =>
      ∀ c ∈ constraints, P c) :=
  fun _ _ _ => ⟨_, fun c hc => h c (mem_of_mem_select hc), rfl⟩

variable {P : Question C ι → Prop}

/-- A problem without soft constraints is refused without a question. -/
theorem asks_requireSoft :
    (problem.requireSoft : Inquiry C A ι DiagnosisError Unit).run.Asks P := by
  by_cases hsoft : problem.soft = []
  · rw [requireSoft_of_eq_nil hsoft]
    exact Dialogue.asks_done P _
  · rw [requireSoft_of_ne_nil hsoft]
    exact Dialogue.asks_done P _

theorem QuestionsSatisfy.asks_ask (hP : problem.QuestionsSatisfy P) {positions : List Nat}
    (hincreasing : positions.Pairwise (· < ·))
    (hlt : ∀ position ∈ positions, position < problem.soft.length) :
    (problem.ask positions : Inquiry C A ι OracleError (Outcome A)).run.Asks P :=
  Problem.asks_ask hlt (hP positions hincreasing hlt)

theorem asks_allM {α ε : Type} {test : α → Inquiry C A ι ε Bool} {xs : List α}
    (h : ∀ x ∈ xs, (test x).run.Asks P) : (xs.allM test).run.Asks P := by
  induction xs with
  | nil => exact Dialogue.asks_done P _
  | cons x xs ih =>
      rw [List.allM]
      refine Inquiry.asks_bind (h x (by simp)) fun exchanges value _ => ?_
      cases value with
      | false => exact Dialogue.asks_done P _
      | true => exact ih fun y hy => h y (by simp [hy])

section

/- A diagnosis may come from another source, as long as its positions exist among the soft
constraints. -/
variable {source : List C}

theorem QuestionsSatisfy.asks_isMinimalCore (hP : problem.QuestionsSatisfy P)
    (hle : source.length ≤ problem.soft.length) (core : Diagnosis source) :
    (problem.isMinimalCore core : Inquiry C A ι OracleError Bool).run.Asks P := by
  have hlt : ∀ position ∈ core.positions, position < problem.soft.length :=
    fun position hmem => (core.lt_length position hmem).trans_le hle
  refine Inquiry.asks_bind (hP.asks_ask core.increasing hlt) fun _ outcome _ => ?_
  split
  · exact Dialogue.asks_done P _
  · refine asks_allM fun removed _ => ?_
    refine Inquiry.asks_bind (hP.asks_ask (core.increasing.filter _) ?_) fun _ _ _ =>
      Dialogue.asks_done P _
    intro position hmem
    exact hlt position (List.mem_filter.mp hmem).1

theorem QuestionsSatisfy.asks_isMinimalCorrection (hP : problem.QuestionsSatisfy P)
    (hle : source.length ≤ problem.soft.length) (correction : Diagnosis source) :
    (problem.isMinimalCorrection correction : Inquiry C A ι OracleError Bool).run.Asks P := by
  have hincreasing := correction.complement_pairwise
  have hlt : ∀ position ∈ correction.complement, position < problem.soft.length := by
    intro position hmem
    exact (Diagnosis.mem_complement.mp hmem).1.trans_le hle
  refine Inquiry.asks_bind (hP.asks_ask hincreasing hlt) fun _ outcome _ => ?_
  split
  · exact Dialogue.asks_done P _
  · refine asks_allM fun restored hrestored => ?_
    refine Inquiry.asks_bind (hP.asks_ask (Ascending.insert_pairwise hincreasing) ?_)
      fun _ _ _ => Dialogue.asks_done P _
    intro position hmem
    rcases Ascending.mem_insert.mp hmem with rfl | hmem
    · exact (correction.lt_length position hrestored).trans_le hle
    · exact hlt position hmem

theorem QuestionsSatisfy.asks_isMinimal (hP : problem.QuestionsSatisfy P)
    (hle : source.length ≤ problem.soft.length) (kind : Kind) (diagnosis : Diagnosis source) :
    (problem.isMinimal kind diagnosis : Inquiry C A ι OracleError Bool).run.Asks P := by
  cases kind with
  | core => exact hP.asks_isMinimalCore hle diagnosis
  | correction => exact hP.asks_isMinimalCorrection hle diagnosis

end

theorem ofPositions?_eq_some {α : Type} {source : List α} {positions : List Nat}
    (hincreasing : positions.Pairwise (· < ·))
    (hlt : ∀ position ∈ positions, position < source.length) :
    Diagnosis.ofPositions? source positions = some ⟨positions, hincreasing, hlt⟩ :=
  dif_pos (Diagnosis.isValid_iff.mpr ⟨hincreasing, hlt⟩)

theorem positions_of_ofPositions? {α : Type} {source : List α} {positions : List Nat}
    {diagnosis : Diagnosis source}
    (h : Diagnosis.ofPositions? source positions = some diagnosis) :
    diagnosis.positions = positions := by
  rw [Diagnosis.ofPositions?] at h
  split at h
  · cases h
    rfl
  · cases h

theorem QuestionsSatisfy.asks_conclude (hP : problem.QuestionsSatisfy P) (verify : Bool)
    (kind : Kind) {positions : List Nat} (hincreasing : positions.Pairwise (· < ·))
    (hlt : ∀ position ∈ positions, position < problem.soft.length) :
    (problem.conclude verify kind positions :
      Inquiry C A ι DiagnosisError (Diagnosis problem.soft)).run.Asks P := by
  rw [conclude, ofPositions?_eq_some hincreasing hlt]
  cases verify with
  | false => exact Dialogue.asks_done P _
  | true =>
      refine Inquiry.asks_bind (Inquiry.asks_orUnavailable (hP.asks_isMinimal le_rfl kind _))
        fun _ minimal _ => ?_
      cases minimal <;> exact Dialogue.asks_done P _

theorem QuestionsSatisfy.asks_reject (hP : problem.QuestionsSatisfy P) (verify : Bool)
    {rejected : List Nat} (hincreasing : rejected.Pairwise (· < ·))
    (hlt : ∀ position ∈ rejected, position < problem.soft.length) :
    (problem.reject verify rejected :
      Inquiry C A ι DiagnosisError (Diagnosis problem.soft)).run.Asks P := by
  rw [reject]
  split
  · exact Dialogue.asks_done P _
  · exact hP.asks_conclude verify .correction hincreasing hlt

theorem falsePositions_sublist (satisfied : List Bool) :
    (falsePositions satisfied).Sublist (List.range satisfied.length) :=
  List.filter_sublist

theorem QuestionsSatisfy.asks_correctionOfOptimum (hP : problem.QuestionsSatisfy P)
    (verify : Bool) (terms : String) (optimum : Optimum A) :
    (problem.correctionOfOptimum verify terms optimum :
      Inquiry C A ι DiagnosisError (Diagnosis problem.soft)).run.Asks P := by
  cases optimum with
  | unsatisfiable => exact Dialogue.asks_done P _
  | optimal satisfied assignment =>
      rw [correctionOfOptimum]
      split
      · rename_i hlength
        have hsublist := falsePositions_sublist satisfied
        refine hP.asks_reject verify (List.pairwise_lt_range.sublist hsublist) ?_
        intro position hmem
        rw [← hlength]
        exact List.mem_range.mp (hsublist.subset hmem)
      · exact Dialogue.asks_done P _

/-! ## What is concluded -/

variable {verify : Bool} {kind : Kind} {positions : List Nat} {exchanges : List (Exchange C A ι)}

/-- A conclusion is either the diagnosis with the given positions or an error of the oracle. -/
theorem yields_conclude {result : Except DiagnosisError (Diagnosis problem.soft)}
    (h : (problem.conclude verify kind positions).run.Yields exchanges result) :
    (∃ diagnosis : Diagnosis problem.soft,
      diagnosis.positions = positions ∧ result = .ok diagnosis) ∨
    verify = true ∧ ∃ error, result = .error (.unavailable error) := by
  rw [conclude] at h
  split at h
  · exact absurd h Dialogue.not_yields_abandon
  · rename_i diagnosis hdiagnosis
    have hpositions := positions_of_ofPositions? hdiagnosis
    cases verify with
    | false => exact .inl ⟨diagnosis, hpositions, (Dialogue.yields_done_iff.mp h).2⟩
    | true =>
        rcases Inquiry.yields_bind_iff.mp h with
          ⟨error, hcheck, rfl⟩ | ⟨first, second, minimal, rfl, hcheck, h⟩
        · obtain ⟨inner, -, hinner⟩ := Inquiry.yields_orUnavailable_iff.mp hcheck
          cases inner with
          | ok value => cases hinner
          | error cause =>
              cases hinner
              exact .inr ⟨rfl, cause, rfl⟩
        · cases minimal with
          | true => exact .inl ⟨diagnosis, hpositions, (Dialogue.yields_done_iff.mp h).2⟩
          | false => exact .inr ⟨rfl, _, (Dialogue.yields_done_iff.mp h).2⟩

/-- Nothing to reject means that there was nothing to diagnose. -/
theorem yields_reject {rejected : List Nat}
    {result : Except DiagnosisError (Diagnosis problem.soft)}
    (h : (problem.reject verify rejected).run.Yields exchanges result) :
    (rejected = [] ∧ result = .error (.invalidInput .satisfiable)) ∨
    (∃ diagnosis : Diagnosis problem.soft, diagnosis.positions = rejected ∧ rejected ≠ [] ∧
      result = .ok diagnosis) ∨
    verify = true ∧ ∃ error, result = .error (.unavailable error) := by
  rw [reject] at h
  split at h
  · rename_i hempty
    exact .inl ⟨List.isEmpty_iff.mp hempty, (Dialogue.yields_done_iff.mp h).2⟩
  · rename_i hempty
    rcases yields_conclude h with ⟨diagnosis, hpositions, rfl⟩ | herror
    · exact .inr (.inl ⟨diagnosis, hpositions, by simpa using hempty, rfl⟩)
    · exact .inr (.inr herror)

/-- A correction of an optimum rejects what it leaves unsatisfied, which is something. -/
theorem optimal_of_correctionOfOptimum {terms : String} {optimum : Optimum A}
    {correction : Diagnosis problem.soft}
    (h : (problem.correctionOfOptimum verify terms optimum).run.Yields exchanges
      (.ok correction)) :
    ∃ satisfied assignment, optimum = .optimal satisfied assignment ∧
      correction.positions = falsePositions satisfied ∧ correction.positions ≠ [] := by
  cases optimum with
  | unsatisfiable => cases (Dialogue.yields_done_iff.mp h).2
  | optimal satisfied assignment =>
      rw [correctionOfOptimum] at h
      split at h
      · rcases yields_reject h with
          ⟨-, herror⟩ | ⟨diagnosis, hpositions, hne, hsame⟩ | ⟨-, error, herror⟩
        · cases herror
        · cases hsame
          exact ⟨satisfied, assignment, rfl, hpositions, by rwa [hpositions]⟩
        · cases herror
      · cases (Dialogue.yields_done_iff.mp h).2

theorem positions_ne_nil_of_correctionOfOptimum {terms : String} {optimum : Optimum A}
    {correction : Diagnosis problem.soft}
    (h : (problem.correctionOfOptimum verify terms optimum).run.Yields exchanges
      (.ok correction)) : correction.positions ≠ [] := by
  obtain ⟨_, _, -, -, hne⟩ := optimal_of_correctionOfOptimum h
  exact hne

end Infeasibility.Problem
