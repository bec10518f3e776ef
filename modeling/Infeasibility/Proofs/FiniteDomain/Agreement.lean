import Infeasibility.Proofs.Diagnosis.Soundness
import Infeasibility.Proofs.FiniteDomain.Corrections
import Infeasibility.Proofs.FiniteDomain.Satisfiability

/-! # Agreement of the two optimizing methods

To maximize indicators comes to the same as to maximize soft terms. The indicators only cost more
visits, so that the limit may be reached, and an error may be noticed at another constraint. After
their release the solver answers as before. -/

namespace Infeasibility.FiniteDomain

variable {solver : Solver} {problem : Problem Constraint} {verify : Bool}

/-! ## The solver after a release -/

namespace Solver

variable {released : List Var} {constraints : List Constraint} {a : Assignment} {c : Constraint}

theorem culprit_withoutIndicators (hreleased : ∀ v ∈ released, solver.model.size ≤ v)
    (hc : solver.model.Declares c.vars) :
    (solver.withoutIndicators released).culprit c = solver.culprit c := by
  unfold culprit
  split
  · rename_i premise conclusion
    have hpremise : premise ∉ released := fun hmem =>
      absurd (hc premise List.mem_cons_self) (Nat.not_lt_of_le (hreleased premise hmem))
    have hcontains : (solver.withoutIndicators released).indicators.contains premise =
        solver.indicators.contains premise := by
      rw [Bool.eq_iff_iff]
      simp [withoutIndicators, hpremise]
    rw [hcontains]
  · rfl

theorem holds_withoutIndicators (hreleased : ∀ v ∈ released, solver.model.size ≤ v)
    (hc : solver.model.Declares c.vars) :
    (solver.withoutIndicators released).holds a c = solver.holds a c := by
  have hblame : (solver.withoutIndicators released).blame c = solver.blame c := by
    funext error
    unfold blame
    rw [culprit_withoutIndicators hreleased hc]
    rfl
  rw [holds, holds, hblame]

theorem allHold_withoutIndicators (hreleased : ∀ v ∈ released, solver.model.size ≤ v)
    (hdeclared : ∀ c ∈ constraints, solver.model.Declares c.vars) :
    (solver.withoutIndicators released).allHold a constraints = solver.allHold a constraints := by
  induction constraints with
  | nil => rfl
  | cons c constraints ih =>
      obtain ⟨hc, hrest⟩ := List.forall_mem_cons.mp hdeclared
      rw [allHold, allHold, holds_withoutIndicators hreleased hc, ih hrest]

/-- What was released is not missed by constraints that were there before. -/
theorem solve_withoutIndicators (hreleased : ∀ v ∈ released, solver.model.size ≤ v)
    (hdeclared : ∀ c ∈ constraints, solver.model.Declares c.vars) :
    (solver.withoutIndicators released).solve constraints = solver.solve constraints := by
  have hprobe : (solver.withoutIndicators released).probe constraints =
      solver.probe constraints := by
    funext a
    rw [probe, probe, allHold_withoutIndicators hreleased hdeclared]
  rw [solve, solve, search_eq, search_eq, hprobe]
  rfl

end Solver

/-- Indicators that were released make no difference to verdicts, nor to what follows from them. -/
theorem result_withoutIndicators {ε α : Type} {x : Inquiry Constraint Assignment Var ε α}
    (hx : x.run.Asks (Question.IsSolveOf fun constraints =>
      ∀ c ∈ constraints, solver.model.Declares c.vars))
    {released : List Var} (hreleased : ∀ v ∈ released, solver.model.size ≤ v) :
    x.result oracle (solver.withoutIndicators released) = x.result oracle solver := by
  refine Dialogue.run_fst_eq_of_related
    (R := fun first second => first = solver.withoutIndicators released ∧ second = solver)
    hx ?_ ⟨rfl, rfl⟩
  rintro _ _ _ ⟨constraints, hconstraints, rfl⟩ ⟨rfl, rfl⟩
  exact ⟨Solver.solve_withoutIndicators hreleased hconstraints, rfl, rfl⟩

/-! ## Agreement -/

/-- Both methods fail, or have the same result, or indicators exceed the limit. -/
theorem result_cases (hsupported : solver.softConstraints = true)
    (hinterrupt : solver.interrupt ≠ some true)
    (hdeclared : ∀ c ∈ problem.hard ++ problem.soft, solver.model.Declares c.vars) :
    (∃ cause cause', (problem.correctionByIndicators verify).result oracle solver =
        .ok (.error (.unavailable (.failure cause))) ∧
      (problem.correctionBySoftTerms verify).result oracle solver =
        .ok (.error (.unavailable (.failure cause')))) ∨
    (problem.correctionByIndicators verify).result oracle solver =
      (problem.correctionBySoftTerms verify).result oracle solver ∨
    ∃ limit, (problem.correctionByIndicators verify).result oracle solver =
      .ok (.error (.unavailable (.resourceLimit limit))) := by
  by_cases hsoft : problem.soft = []
  · rw [Problem.correctionByIndicators, Problem.correctionBySoftTerms,
      Problem.requireSoft_of_eq_nil hsoft]
    exact .inr (.inl rfl)
  have hconcurs := ascent_concurs hdeclared (Solver.interrupted_eq_false hinterrupt)
  rw [result_correctionByIndicators hsoft, result_correctionBySoftTerms hsoft hsupported,
    Solver.maximizeLinked_eq, Solver.maximize_constraints_eq hsupported]
  generalize hdirect : solver.ascent problem.hard problem.soft = direct at hconcurs ⊢
  generalize (solver.withIndicators problem.soft.length).ascent
    (problem.hard ++ links solver.model.size problem.soft)
    (literals solver.model.size problem.soft.length) = reified at hconcurs ⊢
  cases hconcurs with
  | failure hfirst hsecond =>
      obtain ⟨cause, rfl⟩ := hfirst
      obtain ⟨cause', rfl⟩ := hsecond
      exact .inl ⟨cause, cause', rfl, rfl⟩
  | unsatisfiable => exact .inr (.inl rfl)
  | @optimal first second hsame =>
      have hlength : second.satisfied.length = problem.soft.length :=
        (Solver.ascent_eq_ok hdirect).truths.length_eq.symm
      have htruths : Problem.SameTruths
          (.optimal second.satisfied first.assignment : Optimum Assignment)
          (.optimal second.satisfied second.assignment) :=
        .optimal
      have hP := Problem.questionsSatisfy_isSolveOf (ι := Var) hdeclared
      right
      left
      change (problem.correctionOfOptimum verify "indicators"
          (.optimal first.satisfied first.assignment)).result oracle _ =
        (problem.correctionOfOptimum verify "soft constraints"
          (.optimal second.satisfied second.assignment)).result oracle solver
      rw [hsame, Problem.correctionOfOptimum_congr htruths (by rintro _ _ ⟨⟩; exact hlength) verify
        "indicators" "soft constraints"]
      refine result_withoutIndicators (hP.asks_correctionOfOptimum verify _ _) ?_
      exact fun v hv => (List.mem_range'_1.mp hv).1
  | limited => exact .inr (.inr ⟨_, rfl⟩)

/-- What is concluded from indicators is concluded from soft terms too, and where indicators make
the solver fail, soft terms do. Conversely, what is concluded from soft terms is concluded from
indicators, unless they exceed the limit. -/
theorem correctionByIndicators_agrees (solver : Solver) (hsupported : solver.softConstraints = true)
    (hinterrupt : solver.interrupt ≠ some true) (problem : Problem Constraint)
    (hdeclared : ∀ c ∈ problem.hard ++ problem.soft, solver.model.Declares c.vars)
    (verify : Bool) :
    let reified := (problem.correctionByIndicators verify).result oracle solver
    let direct := (problem.correctionBySoftTerms verify).result oracle solver
    (∀ correction, reified = .ok (.ok correction) → direct = .ok (.ok correction)) ∧
    (∀ reason, reified = .ok (.error (.invalidInput reason)) →
      direct = .ok (.error (.invalidInput reason))) ∧
    (∀ cause, reified = .ok (.error (.unavailable (.failure cause))) →
      ∃ cause', direct = .ok (.error (.unavailable (.failure cause')))) ∧
    (∀ correction, direct = .ok (.ok correction) → reified = .ok (.ok correction) ∨
      ∃ limit, reified = .ok (.error (.unavailable (.resourceLimit limit)))) ∧
    (∀ reason, direct = .ok (.error (.invalidInput reason)) →
      reified = .ok (.error (.invalidInput reason)) ∨
        ∃ limit, reified = .ok (.error (.unavailable (.resourceLimit limit)))) := by
  intro reified direct
  have hcases : (∃ cause cause', reified = .ok (.error (.unavailable (.failure cause))) ∧
      direct = .ok (.error (.unavailable (.failure cause')))) ∨ reified = direct ∨
      ∃ limit, reified = .ok (.error (.unavailable (.resourceLimit limit))) :=
    result_cases hsupported hinterrupt hdeclared
  rcases hcases with ⟨cause, cause', hreified, hdirect⟩ | heq | ⟨limit, hreified⟩
  · simp [hreified, hdirect]
  · rw [heq]
    exact ⟨fun _ h => h, fun _ h => h, fun cause h => ⟨cause, h⟩, fun _ h => .inl h,
      fun _ h => .inl h⟩
  · simp [hreified]

/-- Three indicators take eight times as many visits: one visit less, and the limit is exceeded. -/
theorem correctionByIndicators_agrees_within_limit :
    let problem : Problem Constraint :=
      { hard := [.compare .ne (.var 0) (.const 0)]
        soft := [.compare .eq (.var 0) (.const 0),
          .compare .eq (.binary .div (.const 6) (.var 0)) (.const 3),
          .compare .eq (.var 0) (.const 1)] }
    let solver : Nat → Solver := fun limit =>
      { model := ⟨#[⟨"x", 0, 2, by decide⟩]⟩, limit := limit }
    let correction : Diagnosis problem.soft := ⟨[0, 1], by decide, by decide⟩
    ((problem.correctionByIndicators true).result oracle (solver 24) = .ok (.ok correction) ∧
        (problem.correctionBySoftTerms true).result oracle (solver 24) = .ok (.ok correction)) ∧
      (problem.correctionBySoftTerms true).result oracle (solver 23) = .ok (.ok correction) ∧
        ∃ limit, (problem.correctionByIndicators true).result oracle (solver 23) =
          .ok (.error (.unavailable (.resourceLimit limit))) := by
  intro problem solver correction
  have hdeclared : ∀ limit, ∀ c ∈ problem.hard ++ problem.soft,
      (solver limit).model.Declares c.vars := by
    intro limit
    change ∀ c ∈ problem.hard ++ problem.soft, (solver 0).model.Declares c.vars
    decide
  have hreified : (problem.correctionByIndicators true).result oracle (solver 24) =
      .ok (.ok correction) := by
    decide +kernel
  have hdirect : (problem.correctionBySoftTerms true).result oracle (solver 23) =
      .ok (.ok correction) := by
    decide +kernel
  have hexceeded : (problem.correctionByIndicators true).result oracle (solver 23) ≠
      .ok (.ok correction) := by
    decide +kernel
  obtain ⟨hsame, -⟩ :=
    correctionByIndicators_agrees (solver 24) rfl nofun problem (hdeclared 24) true
  obtain ⟨-, -, -, hconverse, -⟩ :=
    correctionByIndicators_agrees (solver 23) rfl nofun problem (hdeclared 23) true
  exact ⟨⟨hreified, hsame correction hreified⟩, hdirect,
    (hconverse correction hdirect).resolve_left hexceeded⟩

end Infeasibility.FiniteDomain
