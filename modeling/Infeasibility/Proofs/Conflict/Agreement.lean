import Infeasibility.Proofs.Conflict.Runs
import Infeasibility.Proofs.Conflict.Selection
import Infeasibility.Proofs.Diagnosis.Safety

/-! # Smallest corrections of declared conflicts

With the oracle of a table of conflicts it makes no difference whether a smallest correction is
looked for through indicators or with the soft constraints as soft terms: the same constraints are
rejected, or the problem is refused for the same reason. -/

namespace Infeasibility.Conflict

variable {table : Table} {problem : Problem Nat}

/-! ## Tables that will not fail -/

namespace Table

/-- No question that is still to come will time out. -/
def WillAnswer (table : Table) : Prop :=
  ∀ number, table.failAt = some number → number < table.questions

def reliable (table : Table) : Table :=
  { table with failAt := none }

theorem WillAnswer.failAt_ne (h : table.WillAnswer) : table.failAt ≠ some table.questions :=
  fun hfail => Nat.lt_irrefl _ (h _ hfail)

theorem WillAnswer.count (h : table.WillAnswer) :
    ({ table with questions := table.questions + 1 } : Table).WillAnswer :=
  fun number hfail => Nat.lt_succ_of_lt (h number hfail)

theorem WillAnswer.answering_reliable {α : Type} (h : table.WillAnswer)
    (answer : Table → Except Misuse (Except OracleError α))
    (hanswer : answer table.reliable = answer table) :
    Table.answering answer table.reliable =
      ((Table.answering answer table).1, (Table.answering answer table).2.reliable) ∧
    (Table.answering answer table).2.WillAnswer := by
  rw [answering_of_failAt_ne h.failAt_ne, answering_of_failAt_eq_none rfl, hanswer]
  exact ⟨rfl, h.count⟩

/-- The answers are those of a table that never fails. -/
theorem WillAnswer.answer_reliable (h : table.WillAnswer) (question : Question Nat Nat) :
    oracle.answer question table.reliable =
      ((oracle.answer question table).1, (oracle.answer question table).2.reliable) ∧
    (oracle.answer question table).2.WillAnswer := by
  cases question with
  | solve constraints => exact h.answering_reliable (fun table => table.verdict constraints) rfl
  | maximize hard soft => exact h.answering_reliable (fun table => table.optimize hard soft) rfl
  | newIndicator => exact ⟨rfl, h⟩
  | release indicators => exact ⟨rfl, h⟩
  | supportsSoft => exact ⟨rfl, h⟩
  | implication indicator constraint =>
      by_cases hatom : constraint < firstLink
      · simp only [Oracle.answer, oracle, if_pos hatom]
        exact ⟨rfl, h⟩
      · simp only [Oracle.answer, oracle, if_neg hatom]
        exact ⟨trivial, h⟩

end Table

theorem result_reliable {ε α : Type} {x : Inquiry Nat (List Nat) Nat ε α} (h : table.WillAnswer)
    (hx : x.run.Asks fun _ => True) : x.result oracle table.reliable = x.result oracle table := by
  refine Dialogue.run_fst_eq_of_related
    (R := fun first second => second.WillAnswer ∧ first = second.reliable) hx ?_ ⟨h, rfl⟩
  rintro question _ second - ⟨hsecond, rfl⟩
  obtain ⟨hanswer, hnext⟩ := hsecond.answer_reliable question
  rw [hanswer]
  exact ⟨rfl, hnext, rfl⟩

/-! ## Verdicts in different states -/

theorem verdict_congr {first second : Table} (h : first.conflicts = second.conflicts)
    {atoms : List Nat} (hatoms : ∀ atom ∈ atoms, atom < firstLink) :
    first.verdict atoms = second.verdict atoms := by
  rw [Table.verdict, Table.verdict, mapM_resolve_atoms hatoms, mapM_resolve_atoms hatoms, h]

/-- Verdicts on atoms depend on the conflicts only. -/
theorem result_congr {ε α : Type} {x : Inquiry Nat (List Nat) Nat ε α}
    (hx : x.run.Asks (Question.IsSolveOf fun atoms => ∀ atom ∈ atoms, atom < firstLink))
    {first second : Table} (hconflicts : first.conflicts = second.conflicts)
    (hfirst : first.failAt = none) (hsecond : second.failAt = none) :
    x.result oracle first = x.result oracle second := by
  refine Dialogue.run_fst_eq_of_related (R := fun first second : Table =>
    first.conflicts = second.conflicts ∧ first.failAt = none ∧ second.failAt = none) hx ?_
      ⟨hconflicts, hfirst, hsecond⟩
  rintro _ first second ⟨atoms, hatoms, rfl⟩ ⟨hconflicts, hfirst, hsecond⟩
  have hanswer : ∀ table : Table, table.failAt = none →
      oracle.answer (.solve atoms) table =
        (table.verdict atoms, { table with questions := table.questions + 1 }) :=
    fun table hfail => answering_of_failAt_eq_none hfail fun table => table.verdict atoms
  rw [hanswer first hfirst, hanswer second hsecond]
  exact ⟨verdict_congr hconflicts hatoms, hconflicts, hfirst, hsecond⟩

/-! ## Conclusions -/

/-- What is not rejected is the first of the largest sets that can be kept. -/
theorem isLeast_complement {hard : List Proposition} {terms : List (SoftTerm Proposition Nat)}
    (h : Represents table.conflicts problem hard terms) {verify : Bool} {name : String}
    {exchanges : List (Exchange Nat (List Nat) Nat)} {correction : Diagnosis problem.soft}
    (hyields : (problem.correctionOfOptimum verify name (optimum table.conflicts hard terms) :
      Inquiry Nat (List Nat) Nat DiagnosisError _).run.Yields exchanges (.ok correction)) :
    IsLeast {kept | problem.KeepsMost (Free table.conflicts) kept} correction.complement := by
  obtain ⟨satisfied, atoms, hoptimum, hpositions, -⟩ :=
    Problem.optimal_of_correctionOfOptimum hyields
  rw [Problem.complement_eq_truePositions (h.length_eq_of_optimum hoptimum) hpositions]
  exact h.isLeast_of_optimum hoptimum

/-- Both methods come to this result, and a correction keeps the first of the largest sets that can
be kept. -/
def Agree (table : Table) (problem : Problem Nat) (verify : Bool)
    (result : Except DiagnosisError (Diagnosis problem.soft)) : Prop :=
  (problem.correctionByIndicators verify).result oracle table = .ok result ∧
  (problem.correctionBySoftTerms verify).result oracle table = .ok result ∧
  ∀ correction, result = .ok correction →
    IsLeast {kept | problem.KeepsMost (Free table.conflicts) kept} correction.complement

theorem agree_of_eq_nil (hsoft : problem.soft = []) (verify : Bool) :
    Agree table problem verify (.error (.invalidInput .empty)) := by
  rw [Agree, Problem.correctionByIndicators, Problem.correctionBySoftTerms,
    Problem.requireSoft_of_eq_nil hsoft]
  exact ⟨rfl, rfl, by simp⟩

section

variable (hfail : table.failAt = none) (hsupported : table.softConstraints = true)
  (hatoms : ∀ atom ∈ problem.hard ++ problem.soft, atom < firstLink) (hsoft : problem.soft ≠ [])

include hfail hsupported hatoms hsoft

theorem agree_of_lt (hlength : maxSoftTerms < problem.soft.length) (verify : Bool) :
    Agree table problem verify
      (.error (.unavailable (.resourceLimit s!"{problem.soft.length} soft terms"))) := by
  obtain ⟨-, hatoms⟩ := List.forall_mem_append.mp hatoms
  have hterms : maxSoftTerms < (problem.soft.map (SoftTerm.constraint (ι := Nat))).length := by
    simpa using hlength
  have hmaximize := maximize_of_lt problem.hard hfail hterms
  rw [List.length_map] at hmaximize
  refine ⟨?_, ?_, by simp⟩
  · rw [Problem.result_correctionByIndicators hsoft,
      run_maximizeIndicators_of_lt hfail hlength hatoms]
    rfl
  · rw [Problem.result_correctionBySoftTerms hsoft hsupported, hmaximize]
    rfl

theorem exists_agree_of_le (hlength : problem.soft.length ≤ maxSoftTerms) (verify : Bool) :
    ∃ result, Agree table problem verify result := by
  have hlinks := represents_nextIndicators table hlength
  have hatomic := represents_atoms table.conflicts problem
  have hP := Problem.questionsSatisfy_isSolveOf (ι := Nat) hatoms
  let released := ({ table.linked problem with questions := table.questions + 1 }).release
    (table.nextIndicators problem.soft.length)
  obtain ⟨result, exchanges, hresult, hyields, -, -⟩ :=
    (decidesOn_atoms table.conflicts).exists_result
      (hP.asks_correctionOfOptimum verify "indicators"
        (optimum table.conflicts (table.linkedHard problem) (table.linkedTerms problem)))
      (show released.conflicts = table.conflicts ∧ released.failAt = none from ⟨rfl, hfail⟩)
  refine ⟨result, ?_, ?_, ?_⟩
  · rw [Problem.result_correctionByIndicators hsoft, run_maximizeIndicators hfail hlength hatoms]
    exact hresult
  · rw [Problem.result_correctionBySoftTerms hsoft hsupported,
      maximize_atoms hfail hsupported hlength hatoms, ← hresult,
      Problem.correctionOfOptimum_congr (hlinks.sameTruths hatomic)
        (fun _ _ hoptimum => hlinks.length_eq_of_optimum hoptimum) verify "indicators"
          "soft constraints"]
    exact result_congr (hP.asks_correctionOfOptimum verify _ _) rfl hfail hfail
  · rintro correction rfl
    exact isLeast_complement hlinks hyields

end

/-- Indicators and soft terms lead to the same result, whatever its kind. What a correction leaves
is the lexicographically first of the largest sets of soft constraints that are free of conflicts
together with the hard ones. -/
theorem smallest_corrections_agree (table : Table) (problem : Problem Nat)
    (hsupported : table.softConstraints = true) (hanswers : table.WillAnswer)
    (hatoms : ∀ atom ∈ problem.hard ++ problem.soft, atom < firstLink) (verify : Bool) :
    ∃ result,
      (Method.indicators.diagnose verify problem).result oracle table = .ok result ∧
      (Method.softTerms.diagnose verify problem).result oracle table = .ok result ∧
      ∀ correction, result = .ok correction →
        IsLeast {kept | problem.KeepsMost (Free table.conflicts) kept} correction.complement := by
  have hsame : ∀ method : Method, (method.diagnose verify problem).result oracle table.reliable =
      (method.diagnose verify problem).result oracle table := by
    intro method
    refine result_reliable hanswers ?_
    exact Problem.QuestionsSatisfy.asks_diagnose (fun _ _ _ => trivial) (fun _ _ => trivial)
      method verify
  have hfail : table.reliable.failAt = none := rfl
  have hsupported' : table.reliable.softConstraints = true := hsupported
  obtain ⟨result, hagree⟩ : ∃ result, Agree table.reliable problem verify result := by
    by_cases hsoft : problem.soft = []
    · exact ⟨_, agree_of_eq_nil hsoft verify⟩
    rcases Nat.lt_or_ge maxSoftTerms problem.soft.length with hlength | hlength
    · exact ⟨_, agree_of_lt hfail hsupported' hatoms hsoft hlength verify⟩
    · exact exists_agree_of_le hfail hsupported' hatoms hsoft hlength verify
  obtain ⟨hindicators, hsoftTerms, hleast⟩ := hagree
  exact ⟨result, (hsame .indicators).symm.trans hindicators,
    (hsame .softTerms).symm.trans hsoftTerms, hleast⟩

/-- A soft constraint is stated twice. It is kept, and the first and the third one are the first of
two pairs that can be. The table has failed before. -/
theorem smallest_corrections_agree_of_repetition :
    let table : Table :=
      { conflicts := [[0, 1], [1, 2], [3, 4]], failAt := some 0, questions := 1 }
    let problem : Problem Nat := { soft := [1, 0, 1, 2, 4], hard := [3] }
    let correction : Diagnosis problem.soft := ⟨[1, 3, 4], by decide, by decide⟩
    (table.softConstraints = true ∧ table.WillAnswer ∧
      ∀ atom ∈ problem.hard ++ problem.soft, atom < firstLink) ∧
    (Method.indicators.diagnose true problem).result oracle table = .ok (.ok correction) ∧
    (Method.softTerms.diagnose true problem).result oracle table = .ok (.ok correction) ∧
    IsLeast {kept | problem.KeepsMost (Free table.conflicts) kept} [0, 2] := by
  intro table problem correction
  have hanswers : table.WillAnswer := by
    intro number hfail
    cases hfail
    decide
  have hatoms : ∀ atom ∈ problem.hard ++ problem.soft, atom < firstLink := by decide
  have hfound : (Method.indicators.diagnose true problem).result oracle table =
      .ok (.ok correction) := by
    decide +kernel
  have hcomplement : correction.complement = [0, 2] := by decide
  obtain ⟨result, hindicators, hsoftTerms, hleast⟩ :=
    smallest_corrections_agree table problem rfl hanswers hatoms true
  obtain rfl : result = .ok correction := Except.ok.inj (hindicators.symm.trans hfound)
  rw [← hcomplement]
  exact ⟨⟨rfl, hanswers, hatoms⟩, hfound, hsoftTerms, hleast correction rfl⟩

end Infeasibility.Conflict
