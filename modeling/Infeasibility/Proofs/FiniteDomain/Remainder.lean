import Infeasibility.Proofs.FiniteDomain.Agreement
import Infeasibility.Proofs.FiniteDomain.Exactness
import Infeasibility.Proofs.FiniteDomain.Soundness

/-! # What a correction leaves

The constraints that a correction leaves are solvable. The solver also finds a solution, although
it may never have been asked for it, and although it tries no more assignments than its limit
permits. Growth has put these constraints to it. An optimizing method has gone through all
assignments of a larger scope instead, and none of them was an error. -/

namespace Infeasibility.FiniteDomain

variable {solver : Solver} {problem : Problem Constraint} {verify : Bool}
  {correction : Diagnosis problem.soft}

/-! ## Smaller questions -/

/-- A part of a scope has no more assignments than the whole. -/
theorem Model.Spans.volume_le {model : Model} {scope part : List Var} {axes partAxes : List Axis}
    (haxes : model.Spans scope axes) (hpart : model.Spans part partAxes)
    (h : part.Sublist scope) : volume partAxes ≤ volume axes := by
  have hdvd : (model.domainSizes part).prod ∣ (model.domainSizes scope).prod :=
    (h.filterMap _).prod_dvd_prod
  rw [← haxes.volume_eq, ← hpart.volume_eq] at hdvd
  exact Nat.le_of_dvd (volume_pos axes) hdvd

theorem scope_sublist {constraints more : List Constraint} (h : ∀ c ∈ constraints, c ∈ more) :
    (Constraint.scope constraints).Sublist (Constraint.scope more) := by
  refine sublist_of_forall_mem (Constraint.scope_pairwise _) (Constraint.scope_pairwise _) ?_
  intro v hv
  obtain ⟨c, hc, hmem⟩ := Constraint.mem_scope_iff.mp hv
  exact Constraint.mem_scope_iff.mpr ⟨c, h c hc, hmem⟩

namespace Solver

theorem exists_allHold {a : Assignment} {constraints : List Constraint}
    (h : ∀ c ∈ constraints, ∃ truth, solver.holds a c = .ok truth) :
    ∃ truth, solver.allHold a constraints = .ok truth := by
  rcases hall : solver.allHold a constraints with halt | truth
  · obtain ⟨c, hc, herror⟩ := allHold_eq_error hall
    obtain ⟨truth, htruth⟩ := h c hc
    rw [htruth] at herror
    cases herror
  · exact ⟨truth, rfl⟩

/-- Where there is something to see, no selection of constraints is an error. -/
theorem exists_allHold_select {a : Assignment} {seen : Option Candidate}
    (h : solver.look problem.hard problem.soft a = .ok seen) (positions : List Nat) :
    ∃ truth, solver.allHold a (problem.select positions) = .ok truth := by
  rw [Problem.select, allHold_append]
  rw [look] at h
  split at h
  · cases h
  · rename_i hfalse
    exact ⟨false, by rw [hfalse]; rfl⟩
  · rename_i htrue
    rw [htrue]
    refine exists_allHold fun c hc => ?_
    obtain ⟨position, -, hget⟩ := List.mem_filterMap.mp hc
    split at h
    · cases h
    · rename_i satisfied hsatisfied
      have htruths := mapM_eq_ok_iff.mp hsatisfied
      obtain ⟨hlt, rfl⟩ := List.getElem?_eq_some_iff.mp hget
      exact ⟨_, htruths.get hlt (htruths.length_eq ▸ hlt)⟩

theorem limit_pos_of_solve {constraints : List Constraint}
    (h : solver.solve constraints = .ok (.ok .unsatisfiable)) :
    0 < solver.limit ∧ solver.enumeration.interrupted = false := by
  have hsearch := solve_eq_unsatisfiable_iff.mp h
  obtain ⟨_, hrun, -⟩ := map_eq_ok_iff.mp hsearch
  obtain ⟨axes, -, hends⟩ := search_ends_of_eq_ok hsearch
  cases hends with
  | exhausted hle _ =>
      exact ⟨Nat.lt_of_lt_of_le (volume_pos axes) hle, Enumeration.interrupted_of_run hrun⟩

/-- Without constraints the first assignment will do. -/
theorem exists_solution_nil (hlimit : 0 < solver.limit)
    (hinterrupted : solver.enumeration.interrupted = false) :
    ∃ a, solver.solve [] = .ok (.ok (.satisfiable a)) := by
  have hends : SearchEnds solver [] [] (solver.search []) := search_ends .nil hinterrupted
  generalize hsearch : solver.search [] = result at hends
  cases hends with
  | halted _ _ _ hhalt => cases hhalt
  | found => exact ⟨_, solve_eq_satisfiable_iff.mpr hsearch⟩
  | exhausted _ hfalse => cases hfalse 0 Nat.one_pos
  | limited hlt _ => exact absurd hlt (Nat.not_lt_of_le hlimit)

end Solver

/-! ## Corrections found by growth -/

theorem exists_solution_of_growth
    (h : (problem.correctionByGrowth verify).result oracle solver = .ok (.ok correction)) :
    ∃ a, solver.solve (problem.select correction.complement) = .ok (.ok (.satisfiable a)) := by
  have hasks := problem.questionsSatisfy_isSolve.asks_correctionByGrowth (A := Assignment)
    (ι := Var) verify
  have hyields := Dialogue.yields_of_run h
  have hsat : ∀ constraints,
      Answered ((problem.correctionByGrowth verify).run.transcript oracle solver) constraints true →
        ∃ a, solver.solve constraints = .ok (.ok (.satisfiable a)) := by
    intro constraints hanswered
    obtain ⟨outcome, hsat, hsolve⟩ := solve_of_answered hasks hanswered
    cases outcome with
    | unsatisfiable => cases hsat
    | satisfiable a => exact ⟨a, hsolve⟩
  rcases Problem.yields_correctionByGrowth (Problem.soft_ne_nil_of_yields_ok hyields) hyields with
    ⟨_, herror, -⟩ | ⟨-, herror⟩ | ⟨hhard, found, hverdicts, ⟨-, herror⟩ | ⟨hne, hsame⟩⟩
  · cases herror
  · cases herror
  · cases herror
  cases hsame
  rcases hverdicts.left with hnil | hleft
  · rw [hnil, Problem.select_nil]
    rcases hhard with hempty | hverdict
    · -- The solver may never have been asked about nothing, but it had some other verdict.
      obtain ⟨position, hmem⟩ := List.exists_mem_of_ne_nil _ hne
      obtain ⟨outcome, hunsat, hsolve⟩ :=
        solve_of_answered hasks (hverdicts.against position hmem)
      cases outcome with
      | satisfiable a => cases hunsat
      | unsatisfiable =>
          obtain ⟨hlimit, hinterrupted⟩ := Solver.limit_pos_of_solve hsolve
          rw [hempty]
          exact Solver.exists_solution_nil hlimit hinterrupted
    · exact hsat _ hverdict
  · exact hsat _ hleft

/-! ## Corrections of an optimum -/

section Seen

variable {axes : List Axis}
  (haxes : solver.model.Spans (Constraint.scope (problem.hard ++ problem.soft)) axes)
  (hseen : ∀ number < volume axes, ∃ seen,
    solver.look problem.hard problem.soft (solver.model.assignment axes number) = .ok seen)

include haxes hseen

/-- Each assignment agrees with one that was seen, so that no selection of constraints is an error
for it. -/
theorem exists_allHold_of_seen {a : Assignment} (ha : solver.model.Admits a)
    (positions : List Nat) :
    ∃ truth, solver.allHold a (problem.select positions) = .ok truth := by
  obtain ⟨number, hnumber, hagree⟩ := haxes.exists_number (Constraint.scope_nodup _) ha
  obtain ⟨seen, hview⟩ := hseen number hnumber
  obtain ⟨truth, htruth⟩ := Solver.exists_allHold_select hview positions
  refine ⟨truth, (Solver.allHold_eq_ok_congr fun c hc => ?_).mpr htruth⟩
  refine Assignment.eval_congr fun v hv => (hagree v ?_).symm
  exact Constraint.mem_scope_iff.mpr ⟨c, Problem.mem_of_mem_select hc, hv⟩

/-- After a search through all assignments of a scope there is enough room to search a part. -/
theorem exists_solution_of_seen (hle : volume axes ≤ solver.limit)
    (hinterrupted : solver.enumeration.interrupted = false) {positions : List Nat}
    (hsolvable : solver.model.Solvable (problem.select positions)) :
    ∃ a, solver.solve (problem.select positions) = .ok (.ok (.satisfiable a)) := by
  have hsubset : ∀ c ∈ problem.select positions, c ∈ problem.hard ++ problem.soft :=
    fun c hc => Problem.mem_of_mem_select hc
  have hdeclared := Constraint.declares_scope_iff.mp haxes.declares
  have hpartDeclared : solver.model.Declares (Constraint.scope (problem.select positions)) :=
    Constraint.declares_scope_iff.mpr fun c hc => hdeclared c (hsubset c hc)
  obtain ⟨partAxes, hpart⟩ := Model.exists_spans hpartDeclared
  have hvolume := haxes.volume_le hpart (scope_sublist hsubset)
  have hends := Solver.search_ends hpart hinterrupted
  generalize hresult : solver.search (problem.select positions) = result at hends
  cases hends with
  | @halted number halt _ _ _ hhalt =>
      obtain ⟨truth, htruth⟩ :=
        exists_allHold_of_seen haxes hseen (hpart.admits number) positions
      rw [htruth] at hhalt
      cases hhalt
  | found => exact ⟨_, Solver.solve_eq_satisfiable_iff.mpr hresult⟩
  | exhausted => exact absurd hsolvable (Solver.search_eq_ok hresult)
  | limited hlt _ => exact absurd hlt (Nat.not_lt_of_le (hvolume.trans hle))

end Seen

theorem falsePositions_eq_nil {satisfied : List Bool}
    (h : satisfied.count true = satisfied.length) : Problem.falsePositions satisfied = [] := by
  have hlength := Problem.length_falsePositions satisfied
  apply List.eq_nil_of_length_eq_zero
  omega

/-- A search that finds an optimum in spite of unsatisfied terms has seen everything. -/
theorem exists_solution_of_ascent {best : Solver.Candidate}
    (h : solver.ascent problem.hard problem.soft = .ok (some best))
    (hpositions : correction.positions = Problem.falsePositions best.satisfied)
    (hne : correction.positions ≠ []) :
    ∃ a, solver.solve (problem.select correction.complement) = .ok (.ok (.satisfiable a)) := by
  have hbest : Solver.Optimal solver.model problem.hard problem.soft best := Solver.ascent_eq_ok h
  obtain ⟨_, hrun, -⟩ := map_eq_ok_iff.mp h
  obtain ⟨axes, haxes, hends⟩ := Solver.ascent_ends_of_eq_ok h
  cases hends with
  | reached _ _ _ _ hcount =>
      -- With all terms true nothing would be rejected.
      have hnone := falsePositions_eq_nil (hcount.trans hbest.truths.length_eq)
      exact absurd (hpositions.trans hnone) hne
  | exhausted hle hpass _ =>
      refine exists_solution_of_seen haxes (fun number hnumber => ?_) hle
        (Enumeration.interrupted_of_run hrun) ?_
      · obtain ⟨seen, hview, -⟩ := hpass number hnumber
        exact ⟨seen, hview⟩
      · exact (isOptimum_of_optimal hbest).isCorrection correction hpositions

theorem exists_solution_of_softTerms (hsupported : solver.softConstraints = true)
    (h : (problem.correctionBySoftTerms verify).result oracle solver = .ok (.ok correction)) :
    ∃ a, solver.solve (problem.select correction.complement) = .ok (.ok (.satisfiable a)) := by
  have hsoft := Problem.soft_ne_nil_of_yields_ok (Dialogue.yields_of_run h)
  rw [result_correctionBySoftTerms hsoft hsupported,
    Solver.maximize_constraints_eq hsupported] at h
  obtain ⟨optimum, hanswer, hresult⟩ := exists_optimum_of_resultOf h
  obtain ⟨found, hfound, rfl⟩ := answerOf_eq_ok hanswer
  obtain ⟨satisfied, a, hoptimal, hpositions, hne⟩ :=
    Problem.optimal_of_correctionOfOptimum (Dialogue.yields_of_run hresult)
  cases found with
  | none => cases hoptimal
  | some best =>
      cases hoptimal
      exact exists_solution_of_ascent hfound hpositions hne

/-! ## All methods -/

/-- The solver finds a solution of what a correction leaves, and it is the least one. -/
theorem exists_least_solution {method : Method} (hkind : method.kind = .correction)
    (hsupported : solver.softConstraints = true) (hinterrupt : solver.interrupt ≠ some true)
    (hdeclared : ∀ c ∈ problem.hard ++ problem.soft, solver.model.Declares c.vars)
    (h : (method.diagnose verify problem).result oracle solver = .ok (.ok correction)) :
    ∃ a, solver.solve (problem.select correction.complement) = .ok (.ok (.satisfiable a)) ∧
      IsLeast {b | solver.model.Admits b ∧
        ∀ c ∈ problem.select correction.complement, b.eval c = .ok true} a := by
  have hsolution : ∃ a, solver.solve (problem.select correction.complement) =
      .ok (.ok (.satisfiable a)) := by
    cases method with
    | deletion => cases hkind
    | growth => exact exists_solution_of_growth h
    | softTerms => exact exists_solution_of_softTerms hsupported h
    | indicators =>
        change (problem.correctionByIndicators verify).result oracle solver = _ at h
        rcases result_cases hsupported hinterrupt hdeclared with
          ⟨_, _, hfailure, -⟩ | hsame | ⟨_, hlimit⟩
        · rw [hfailure] at h
          cases h
        · rw [hsame] at h
          exact exists_solution_of_softTerms hsupported h
        · rw [hlimit] at h
          cases h
  obtain ⟨a, ha⟩ := hsolution
  exact ⟨a, ha, Solver.isLeast_of_solve ha⟩

end Infeasibility.FiniteDomain
