import Infeasibility.Oracle.Script
import Infeasibility.Proofs.Diagnosis.Deletion
import Infeasibility.Proofs.Diagnosis.Growth

/-! # Runs justify what they find

What deletion and growth find rests on verdicts of the run alone. They are all there if the oracle
contradicts itself, too: nothing is concluded from one verdict about another. -/

namespace Infeasibility.Problem

variable {σ C A ι : Type} {problem : Problem C} {exchanges : List (Exchange C A ι)}

/-- A position was kept because of a verdict on constraints that lack it, and no other position of
the core. -/
theorem DeletionVerdicts.exists_others {core : Diagnosis problem.soft}
    (h : problem.DeletionVerdicts exchanges core.positions) {position : Nat}
    (hmem : position ∈ core.positions) :
    ∃ others : Diagnosis problem.soft, position ∉ others.positions ∧
      (∀ other ∈ core.positions, other ≠ position → other ∈ others.positions) ∧
      Answered exchanges (problem.select others.positions) true := by
  let others : Diagnosis problem.soft :=
    { positions := core.positions.filter (· < position) ++
        (List.range problem.soft.length).filter (position < ·)
      increasing := h.pairwise_around position
      lt_length := by
        intro other hother
        rcases List.mem_append.mp hother with hother | hother
        · exact core.lt_length other (List.mem_filter.mp hother).1
        · exact List.mem_range.mp (List.mem_filter.mp hother).1 }
  refine ⟨others, by simp [others], fun other hother hne => ?_, h.needed position hmem⟩
  have hlt := core.lt_length other hother
  rcases Nat.lt_or_gt_of_ne hne with hbefore | hbehind
  · apply List.mem_append_left
    simp [hother, hbefore]
  · apply List.mem_append_right
    simp [hlt, hbehind]

/-- Whatever the oracle answers, a core was found unsatisfiable, and for each of its positions
constraints that lack no other one were found satisfiable. Each position of a correction was found
unsatisfiable together with those that were kept before it; all that were kept, if there are any,
were found satisfiable. -/
theorem transcript_justifies (oracle : Oracle σ C A ι) (problem : Problem C) (verify : Bool)
    (state : σ) :
    (∀ core, (problem.minimalCore verify).result oracle state = .ok (.ok core) →
      let exchanges := (problem.minimalCore verify).run.transcript oracle state
      Answered exchanges (problem.select core.positions) false ∧
        ∀ position ∈ core.positions, ∃ others : Diagnosis problem.soft,
          position ∉ others.positions ∧
          (∀ other ∈ core.positions, other ≠ position → other ∈ others.positions) ∧
          Answered exchanges (problem.select others.positions) true) ∧
    ∀ correction, (problem.correctionByGrowth verify).result oracle state = .ok (.ok correction) →
      let exchanges := (problem.correctionByGrowth verify).run.transcript oracle state
      (∀ position ∈ correction.positions, Answered exchanges (problem.select
        (correction.complement.filter (· < position) ++ [position])) false) ∧
      (correction.complement ≠ [] →
        Answered exchanges (problem.select correction.complement) true) := by
  constructor
  · intro core hcore
    have hyields := Dialogue.yields_of_run hcore
    rcases yields_minimalCore (soft_ne_nil_of_yields_ok hyields) hyields with
      ⟨error, herror, -⟩ | ⟨-, herror⟩ | ⟨-, herror⟩ | ⟨found, -, hverdicts, hfound⟩
    · cases herror
    · cases herror
    · cases herror
    · cases hfound
      exact ⟨hverdicts.unsat, fun position hmem => hverdicts.exists_others hmem⟩
  · intro correction hcorrection
    have hyields := Dialogue.yields_of_run hcorrection
    rcases yields_correctionByGrowth (soft_ne_nil_of_yields_ok hyields) hyields with
      ⟨error, herror, -⟩ | ⟨-, herror⟩ |
        ⟨-, found, hverdicts, ⟨-, herror⟩ | ⟨-, hfound⟩⟩
    · cases herror
    · cases herror
    · cases herror
    · cases hfound
      exact ⟨hverdicts.against, fun hne => hverdicts.left.resolve_left hne⟩

/-- The oracle rejects all constraints, accepts `30` with `20`, rejects `10` with `30`, and accepts
nothing without `30`. What deletion keeps is what growth rejects. -/
theorem transcript_justifies_of_contradiction :
    let problem : Problem Nat := { soft := [10, 20, 30], hard := [1] }
    let script : List Bool → Script.State := fun verdicts =>
      { verdicts := verdicts.map .ok, otherwise := .ok true, optima := [] }
    let found : Diagnosis problem.soft := ⟨[0, 2], by decide, by decide⟩
    ((problem.minimalCore false).result Script.oracle (script [false, true, false, true]) =
        .ok (.ok found) ∧
      Answered ((problem.minimalCore false).run.transcript Script.oracle
        (script [false, true, false, true])) [1, 10, 30] false) ∧
    (problem.correctionByGrowth false).result Script.oracle (script [true, false, true, false]) =
        .ok (.ok found) ∧
      Answered ((problem.correctionByGrowth false).run.transcript Script.oracle
        (script [true, false, true, false])) [1, 20, 30] false := by
  intro problem script found
  have hcore : (problem.minimalCore false).result Script.oracle
      (script [false, true, false, true]) = .ok (.ok found) := by
    decide +kernel
  have hcorrection : (problem.correctionByGrowth false).result Script.oracle
      (script [true, false, true, false]) = .ok (.ok found) := by
    decide +kernel
  obtain ⟨hunsat, -⟩ :=
    (transcript_justifies Script.oracle problem false (script [false, true, false, true])).1 found
      hcore
  obtain ⟨hagainst, -⟩ :=
    (transcript_justifies Script.oracle problem false (script [true, false, true, false])).2 found
      hcorrection
  exact ⟨⟨hcore, hunsat⟩, hcorrection, hagainst 2 (by decide)⟩

end Infeasibility.Problem
