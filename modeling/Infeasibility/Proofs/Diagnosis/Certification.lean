import Infeasibility.Diagnosis.Method
import Infeasibility.Oracle.Script
import Infeasibility.Proofs.Diagnosis.Verification

/-! # Verified runs

A method that verifies its diagnosis first does what it does without verification, and then checks
what it found. The check ends the run. Whatever the oracle answered before, and however it changes
its mind, a verified diagnosis is therefore certified by the last verdicts of the run. -/

namespace Infeasibility

variable {σ C A ι : Type}

/-! ## The positions of a check -/

/-- A position that is restored takes its place among those of the complement. -/
theorem Diagnosis.insert_complement {α : Type} {source : List α} (diagnosis : Diagnosis source)
    {restored : Nat} (h : restored < source.length) :
    Ascending.insert restored diagnosis.complement =
      (List.range source.length).filter fun position =>
        position = restored ∨ position ∉ diagnosis.positions := by
  refine List.Pairwise.eq_of_mem_iff
    (Ascending.insert_pairwise diagnosis.complement_pairwise)
    (List.pairwise_lt_range.filter _) fun position => ?_
  rw [Ascending.mem_insert, mem_complement, List.mem_filter, List.mem_range, decide_eq_true_eq]
  constructor
  · rintro (rfl | ⟨hlt, hnot⟩)
    · exact ⟨h, .inl rfl⟩
    · exact ⟨hlt, .inr hnot⟩
  · rintro ⟨hlt, rfl | hnot⟩
    · exact .inl rfl
    · exact .inr ⟨hlt, hnot⟩

namespace Problem

variable {problem : Problem C} {kind : Kind} {diagnosis : Diagnosis problem.soft}

/-- There is one verdict on the diagnosis, and one on each change. -/
theorem length_certificate :
    (problem.certificate kind diagnosis).length = diagnosis.size + 1 := by
  cases kind <;> simp [certificate, Diagnosis.size]

/-! ## Verification of what a method finds -/

theorem minimalCore_true (problem : Problem C) :
    (problem.minimalCore true : Inquiry C A ι DiagnosisError (Diagnosis problem.soft)) =
      problem.minimalCore false >>= problem.verified .core := by
  rw [minimalCore, minimalCore, bind_assoc]
  refine bind_congr fun _ => ?_
  rw [bind_assoc]
  refine bind_congr fun outcome => ?_
  split
  · rfl
  rw [bind_assoc]
  refine bind_congr fun core => ?_
  split
  · rfl
  · exact problem.conclude_true .core core

theorem correctionByGrowth_true (problem : Problem C) :
    (problem.correctionByGrowth true : Inquiry C A ι DiagnosisError (Diagnosis problem.soft)) =
      problem.correctionByGrowth false >>= problem.verified .correction := by
  rw [correctionByGrowth, correctionByGrowth, bind_assoc]
  refine bind_congr fun _ => ?_
  rw [bind_assoc]
  refine bind_congr fun _ => ?_
  rw [bind_assoc]
  exact bind_congr fun rejected => problem.reject_true rejected

theorem correctionByIndicators_true (problem : Problem C) :
    (problem.correctionByIndicators true :
      Inquiry C A ι DiagnosisError (Diagnosis problem.soft)) =
      problem.correctionByIndicators false >>= problem.verified .correction := by
  rw [correctionByIndicators, correctionByIndicators, bind_assoc]
  refine bind_congr fun _ => ?_
  rw [bind_assoc]
  exact bind_congr fun optimum => problem.correctionOfOptimum_true _ optimum

theorem correctionBySoftTerms_true (problem : Problem C) :
    (problem.correctionBySoftTerms true :
      Inquiry C A ι DiagnosisError (Diagnosis problem.soft)) =
      problem.correctionBySoftTerms false >>= problem.verified .correction := by
  rw [correctionBySoftTerms, correctionBySoftTerms, bind_assoc]
  refine bind_congr fun _ => ?_
  rw [bind_assoc]
  refine bind_congr fun _ => ?_
  rw [bind_assoc]
  exact bind_congr fun optimum => problem.correctionOfOptimum_true _ optimum

/-- To verify a diagnosis is to find it and then to check it. -/
theorem diagnose_true (problem : Problem C) (method : Method) :
    (method.diagnose true problem : Inquiry C A ι DiagnosisError (Diagnosis problem.soft)) =
      method.diagnose false problem >>= problem.verified method.kind := by
  cases method with
  | deletion => exact problem.minimalCore_true
  | growth => exact problem.correctionByGrowth_true
  | indicators => exact problem.correctionByIndicators_true
  | softTerms => exact problem.correctionBySoftTerms_true

/-! ## Certified runs -/

variable {exchanges : List (Exchange C A ι)}

/-- The run without verification comes first, then the verdicts of the certificate. -/
theorem certified_of_yields_diagnose {method : Method}
    (h : (method.diagnose true problem).run.Yields exchanges (.ok diagnosis)) :
    ∃ search check, exchanges = search ++ check ∧
      (method.diagnose false problem).run.Yields search (.ok diagnosis) ∧
      problem.Certified method.kind diagnosis check := by
  rw [diagnose_true] at h
  obtain ⟨search, check, found, rfl, hsearch, hcheck⟩ := Inquiry.yields_bind_ok_iff.mp h
  obtain ⟨rfl, hcertified⟩ := certified_of_yields_verified hcheck
  exact ⟨search, check, rfl, hsearch, hcertified⟩

end Problem

/-! ## The last verdicts -/

/-- The question is for a verdict. -/
def Question.isSolve : Question C ι → Bool
  | .solve _ => true
  | .newIndicator | .implication _ _ | .release _ | .supportsSoft | .maximize _ _ => false

/-- The exchanges in which the oracle was asked for a verdict. -/
def solves (exchanges : List (Exchange C A ι)) : List (Exchange C A ι) :=
  exchanges.filter fun exchange => exchange.question.isSolve

theorem solves_append (first second : List (Exchange C A ι)) :
    solves (first ++ second) = solves first ++ solves second :=
  List.filter_append first second

/-- Verdicts are not left out. -/
theorem solves_eq_of_forall₂ {demands : List (List C × Bool)} {exchanges : List (Exchange C A ι)}
    (h : List.Forall₂ (fun demanded => Exchange.IsVerdict demanded.1 demanded.2) demands
      exchanges) : solves exchanges = exchanges := by
  induction h with
  | nil => rfl
  | cons hverdict _ ih =>
      obtain ⟨outcome, -, rfl⟩ := hverdict
      rw [solves, List.filter_cons_of_pos rfl, ← solves, ih]

theorem Problem.Certified.solves_eq {problem : Problem C} {kind : Kind}
    {diagnosis : Diagnosis problem.soft} {exchanges : List (Exchange C A ι)}
    (h : problem.Certified kind diagnosis exchanges) : solves exchanges = exchanges := by
  have hverdicts : List.Forall₂ (fun demanded => Exchange.IsVerdict demanded.1 demanded.2)
      ((problem.certificate kind diagnosis).map (Prod.map problem.select id)) exchanges :=
    List.forall₂_map_left_iff.mpr h
  exact solves_eq_of_forall₂ hverdicts

/-- A verified diagnosis is certified by the last verdicts of the run, as many as it has elements
and one more: the one on the diagnosis itself, then those on each change by a single element, in
the order of the elements. An element that is restored is put in its place. -/
theorem diagnose_certified (oracle : Oracle σ C A ι) (problem : Problem C) (method : Method)
    (state : σ) {diagnosis : Diagnosis problem.soft}
    (h : (method.diagnose true problem).result oracle state = .ok (.ok diagnosis)) :
    (∃ earlier check,
      solves ((method.diagnose true problem).run.transcript oracle state) = earlier ++ check ∧
        check.length = diagnosis.size + 1 ∧ problem.Certified method.kind diagnosis check) ∧
    ∀ restored ∈ diagnosis.positions, Ascending.insert restored diagnosis.complement =
      (List.range problem.soft.length).filter fun position =>
        position = restored ∨ position ∉ diagnosis.positions := by
  constructor
  · obtain ⟨search, check, hsplit, -, hcertified⟩ :=
      Problem.certified_of_yields_diagnose (Dialogue.yields_of_run h)
    refine ⟨solves search, check, ?_, ?_, hcertified⟩
    · rw [hsplit, solves_append, hcertified.solves_eq]
    · rw [← List.Forall₂.length_eq hcertified, Problem.length_certificate]
  · intro restored hmem
    exact diagnosis.insert_complement (diagnosis.lt_length restored hmem)

/-- A constraint is stated twice. Without the first of the two the oracle accepts the rest, without
the second it rejects the very same list, and it rejects it again when the core is verified. -/
theorem diagnose_certified_of_contradiction :
    let problem : Problem Nat := { soft := [10, 10, 20], hard := [1] }
    let state : Script.State :=
      { verdicts := [.ok false, .ok true, .ok false, .ok true, .ok false]
        otherwise := .ok true
        optima := [] }
    let core : Diagnosis problem.soft := ⟨[0, 2], by decide, by decide⟩
    (Method.deletion.diagnose true problem).result Script.oracle state = .ok (.ok core) ∧
    ∃ earlier check,
      solves ((Method.deletion.diagnose true problem).run.transcript Script.oracle state) =
        earlier ++ check ∧
      check.length = 3 ∧ problem.Certified .core core check := by
  intro problem state core
  have hcore : (Method.deletion.diagnose true problem).result Script.oracle state =
      .ok (.ok core) := by
    decide +kernel
  obtain ⟨hcertified, -⟩ := diagnose_certified Script.oracle problem .deletion state hcore
  exact ⟨hcore, hcertified⟩

end Infeasibility
