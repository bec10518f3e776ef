import Infeasibility.Proofs.FiniteDomain.Coherence
import Infeasibility.Proofs.FiniteDomain.Isolation

/-! # Culprits

A failure of the solver names a constraint and an error to which it evaluates under some assignment.
The constraint is one of the problem, also if it was a link that failed: the indicator of a link is
an indicator in use, which no constraint of the problem mentions, and so the blame is passed on to
the constraint behind it. -/

namespace Infeasibility.FiniteDomain

/-! ## Texts and variables -/

theorem Term.text_congr {f g : Var → String} {t : Term} (h : ∀ v ∈ t.vars, f v = g v) :
    t.text f = t.text g := by
  induction t with
  | const value => rfl
  | var v => exact h v (by simp [vars])
  | neg t ih => rw [text, text, ih h]
  | binary op l r ihl ihr =>
      obtain ⟨hl, hr⟩ := List.forall_mem_append.mp h
      rw [text, text, ihl hl, ihr hr]

namespace Constraint

mutual

theorem text_congr {f g : Var → String} :
    ∀ {c : Constraint}, (∀ v ∈ c.vars, f v = g v) → c.text f = c.text g
  | .literal v, h => h v (by simp [vars])
  | .compare op l r, h => by
      rw [vars] at h
      obtain ⟨hl, hr⟩ := List.forall_mem_append.mp h
      rw [text, text, Term.text_congr hl, Term.text_congr hr]
  | .all cs, h => by rw [text, text, operandTexts_congr h]
  | .any cs, h => by rw [text, text, operandTexts_congr h]
  | .not c, h => by
      have hc : ∀ v ∈ c.vars, f v = g v := h
      rw [text, text, text_congr hc]
  | .implies a b, h => by
      rw [vars] at h
      obtain ⟨ha, hb⟩ := List.forall_mem_append.mp h
      rw [text, text, text_congr ha, text_congr hb]
  | .allDifferent ts, h => by
      have hts : ts.map (Term.text f) = ts.map (Term.text g) := by
        refine List.map_congr_left fun t ht => Term.text_congr fun v hv => ?_
        exact h v (List.mem_flatMap.mpr ⟨t, ht, hv⟩)
      rw [text, text, hts]

theorem operandTexts_congr {f g : Var → String} :
    ∀ {cs : List Constraint}, (∀ v ∈ varsOfAll cs, f v = g v) →
      operandTexts f cs = operandTexts g cs
  | [], _ => rfl
  | c :: cs, h => by
      rw [varsOfAll] at h
      obtain ⟨hc, hcs⟩ := List.forall_mem_append.mp h
      rw [operandTexts, operandTexts, text_congr hc, operandTexts_congr hcs]

end

end Constraint

namespace Model

variable {model : Model} {count : Nat} {c : Constraint}

theorem declares_withIndicators (hc : model.Declares c.vars) :
    (model.withIndicators count).Declares c.vars := by
  intro v hv
  rw [size_withIndicators]
  exact Nat.lt_add_right count (hc v hv)

/-- Indicators do not occur in the text of a constraint over the model. -/
theorem describe_withIndicators (hc : model.Declares c.vars) :
    (model.withIndicators count).describe c = model.describe c := by
  have hlabel : ∀ v ∈ c.vars, (model.withIndicators count).label v = model.label v := by
    intro v hv
    rw [label, label, declared?_withIndicators_of_lt (hc v hv)]
  rw [describe_of_declares hc, describe_of_declares (declares_withIndicators hc),
    Constraint.text_congr hlabel]

end Model

/-! ## Assignments without indicators -/

/-- The values of the first variables. -/
def Assignment.restrict (a : Assignment) (size : Nat) : Assignment :=
  ⟨a.values.take size⟩

theorem Assignment.value?_restrict {a : Assignment} {size : Nat} {v : Var} (h : v < size) :
    (a.restrict size).value? v = a.value? v := by
  simp [restrict, value?, Array.getElem?_extract, h]

namespace Model

variable {model : Model} {count : Nat} {c : Constraint} {a : Assignment}

theorem Admits.restrict (h : (model.withIndicators count).Admits a) :
    model.Admits (a.restrict model.size) := by
  constructor
  · have hsize := h.size_eq
    rw [size_withIndicators] at hsize
    simp [Assignment.restrict, hsize]
  · intro v declared hdeclared
    have hv := lt_size_of_declared hdeclared
    rw [Assignment.value?_restrict hv]
    exact h.mem_domain v declared (by rwa [declared?_withIndicators_of_lt hv])

theorem eval_restrict (hc : model.Declares c.vars) : (a.restrict model.size).eval c = a.eval c :=
  Assignment.eval_congr fun v hv => Assignment.value?_restrict (hc v hv)

/-- A variable of the model is true or false. -/
theorem Admits.exists_literal (h : model.Admits a) {v : Var} (hv : v < model.size) :
    ∃ truth, a.eval (.literal v) = .ok truth := by
  obtain ⟨value, hvalue⟩ := Option.isSome_iff_exists.mp (h.isSome_value? hv)
  refine ⟨value ≠ 0, ?_⟩
  rw [Assignment.eval, Assignment.isTrue, Assignment.read, hvalue]
  rfl

/-- The text names the constraint and an error to which it evaluates under some assignment. -/
def Explains (model : Model) (c : Constraint) (cause : String) : Prop :=
  ∃ error a text, (error = .divisionByZero ∨ error = .overflow) ∧ model.Admits a ∧
    a.eval c = .error error ∧ model.describe c = .ok text ∧
    cause = error.message ++ " in `" ++ text ++ "`"

end Model

/-! ## Searches that fail -/

namespace Solver

variable {solver : Solver} {a : Assignment} {c : Constraint} {cause : String}
  {constraints hard terms : List Constraint}

/-- The search is given up at the constraint, which is an error under some assignment. -/
def FailsAt (solver : Solver) (c : Constraint) (halt : Halt) : Prop :=
  ∃ a, solver.model.Admits a ∧ solver.holds a c = .error halt

/-- A search that fails does so at a constraint, unless a variable is not part of the model. -/
theorem exists_failsAt_of_search (hdeclared : ∀ c ∈ constraints, solver.model.Declares c.vars)
    (h : solver.search constraints = .error (.error (.failure cause))) :
    ∃ c ∈ constraints, solver.FailsAt c (.error (.failure cause)) := by
  rw [search_eq] at h
  rcases Enumeration.halt_of_run (Constraint.declares_scope_iff.mpr hdeclared)
    (map_eq_error_iff.mp h) with hhalt | ⟨text, hhalt⟩ | ⟨a, state, ha, hvisit⟩
  · cases hhalt
  · cases hhalt
  · obtain ⟨c, hc, hholds⟩ := allHold_eq_error (probe_eq_error hvisit)
    exact ⟨c, hc, a, ha, hholds⟩

@[inherit_doc exists_failsAt_of_search]
theorem exists_failsAt_of_ascent (hdeclared : ∀ c ∈ hard ++ terms, solver.model.Declares c.vars)
    (h : solver.ascent hard terms = .error (.error (.failure cause))) :
    ∃ c ∈ hard ++ terms, solver.FailsAt c (.error (.failure cause)) := by
  rw [ascent] at h
  rcases Enumeration.halt_of_run (Constraint.declares_scope_iff.mpr hdeclared)
    (map_eq_error_iff.mp h) with hhalt | ⟨text, hhalt⟩ | ⟨a, best, ha, hvisit⟩
  · cases hhalt
  · cases hhalt
  · obtain ⟨c, hc, hholds⟩ := look_eq_error (climb_eq_error hvisit)
    exact ⟨c, hc, a, ha, hholds⟩

/-- A failure names the culprit and the error of the constraint. -/
theorem FailsAt.exists_text (hc : solver.model.Declares c.vars)
    (h : solver.FailsAt c (.error (.failure cause))) :
    ∃ error a text, (error = .divisionByZero ∨ error = .overflow) ∧ solver.model.Admits a ∧
      a.eval c = .error error ∧ solver.model.describe (solver.culprit c) = .ok text ∧
      cause = error.message ++ " in `" ++ text ++ "`" := by
  obtain ⟨a, ha, hholds⟩ := h
  obtain ⟨error, heval, hblame⟩ := holds_eq_error hholds
  have hmissing : ∀ v, error ≠ .unassigned v := by
    rintro v rfl
    exact Assignment.noneMissing_eval (fun v hv => ha.isSome_value? (hc v hv)) v heval
  rw [blame_eq hc hmissing] at hblame
  cases hblame
  refine ⟨error, a, _, ?_, ha, heval, Model.describe_of_declares (declares_culprit hc), rfl⟩
  cases error with
  | divisionByZero => exact .inl rfl
  | overflow => exact .inr rfl
  | unassigned v => exact absurd rfl (hmissing v)

/-! ## Culprits among the constraints of a problem -/

theorem culprit_eq_self (h : ∀ v ∈ c.vars, v ∉ solver.indicators) : solver.culprit c = c := by
  unfold culprit
  split
  · rename_i premise conclusion
    have hpremise := h premise List.mem_cons_self
    rw [if_neg (by simpa using hpremise)]
  · rfl

theorem culprit_link {v : Var} (h : v ∈ solver.indicators) :
    solver.culprit (.implies (.literal v) c) = c := by
  simp [culprit, h]

/-- Without indicators the constraint itself is to blame. -/
theorem FailsAt.explains (hnone : solver.indicators = []) (hc : solver.model.Declares c.vars)
    (h : solver.FailsAt c (.error (.failure cause))) : solver.model.Explains c cause := by
  have hself : solver.culprit c = c := culprit_eq_self (by simp [hnone])
  have htext := h.exists_text hc
  rwa [hself] at htext

variable {count position : Nat}

/-- Indicators do not keep a constraint over the model from being to blame. -/
theorem FailsAt.explains_withIndicators (hnone : solver.indicators = [])
    (hc : solver.model.Declares c.vars)
    (h : (solver.withIndicators count).FailsAt c (.error (.failure cause))) :
    solver.model.Explains c cause := by
  have hself : (solver.withIndicators count).culprit c = c := by
    refine culprit_eq_self fun v hv hmem => ?_
    have hrange : v ∈ List.range' solver.model.size count := by
      simpa [withIndicators, hnone] using hmem
    exact absurd (hc v hv) (Nat.not_lt_of_le (List.mem_range'_1.mp hrange).1)
  obtain ⟨error, a, text, herror, ha, heval, hdescribe, hcause⟩ :=
    h.exists_text (Model.declares_withIndicators hc)
  rw [hself, withIndicators, Model.describe_withIndicators hc] at hdescribe
  exact ⟨error, _, text, herror, ha.restrict, (Model.eval_restrict hc).trans heval, hdescribe,
    hcause⟩

/-- The constraint behind a link is to blame for it: an indicator is never an error. -/
theorem FailsAt.explains_link {v : Var} (hv : v ∈ List.range' solver.model.size count)
    (hc : solver.model.Declares c.vars)
    (h : (solver.withIndicators count).FailsAt (.implies (.literal v) c)
      (.error (.failure cause))) : solver.model.Explains c cause := by
  have hlink : (solver.withIndicators count).model.Declares
      (Constraint.implies (.literal v) c).vars := by
    refine List.forall_mem_cons.mpr ⟨?_, Model.declares_withIndicators hc⟩
    rw [withIndicators, Model.size_withIndicators]
    exact (List.mem_range'_1.mp hv).2
  have hculprit : (solver.withIndicators count).culprit (.implies (.literal v) c) = c :=
    culprit_link (List.mem_append_right _ hv)
  obtain ⟨error, a, text, herror, ha, heval, hdescribe, hcause⟩ := h.exists_text hlink
  rw [hculprit, withIndicators, Model.describe_withIndicators hc] at hdescribe
  obtain ⟨truth, htruth⟩ := ha.exists_literal (hlink v List.mem_cons_self)
  refine ⟨error, _, text, herror, ha.restrict, (Model.eval_restrict hc).trans ?_, hdescribe,
    hcause⟩
  rw [Assignment.eval, htruth] at heval
  cases truth with
  | false => cases heval
  | true => exact heval

end Solver

/-! ## Answers that are failures -/

section

variable {solver : Solver} {problem : Problem Constraint} {cause : String}
  (hnone : solver.indicators = [])

include hnone

theorem explains_of_solve {constraints : List Constraint}
    (hdeclared : ∀ c ∈ constraints, solver.model.Declares c.vars)
    (h : solver.solve constraints = .ok (.error (.failure cause))) :
    ∃ c ∈ constraints, solver.model.Explains c cause := by
  rw [Solver.solve, Halt.separate_eq_ok_error_iff] at h
  obtain ⟨c, hc, hfails⟩ := Solver.exists_failsAt_of_search hdeclared (map_eq_error_iff.mp h)
  exact ⟨c, hc, hfails.explains hnone (hdeclared c hc)⟩

variable (hdeclared : ∀ c ∈ problem.hard ++ problem.soft, solver.model.Declares c.vars)

include hdeclared

theorem explains_of_maximize (hsupported : solver.softConstraints = true)
    (h : solver.maximize problem.hard (problem.soft.map .constraint) =
      .ok (.error (.failure cause))) :
    ∃ c ∈ problem.hard ++ problem.soft, solver.model.Explains c cause := by
  rw [Solver.maximize_constraints_eq hsupported, answerOf, Halt.separate_eq_ok_error_iff] at h
  obtain ⟨c, hc, hfails⟩ := Solver.exists_failsAt_of_ascent hdeclared (map_eq_error_iff.mp h)
  exact ⟨c, hc, hfails.explains hnone (hdeclared c hc)⟩

theorem explains_of_maximizeLinked
    (h : solver.maximizeLinked problem = .ok (.error (.failure cause))) :
    ∃ c ∈ problem.hard ++ problem.soft, solver.model.Explains c cause := by
  obtain ⟨hhard, hsoft⟩ := List.forall_mem_append.mp hdeclared
  have hliterals : ∀ c ∈ literals solver.model.size problem.soft.length,
      (solver.withIndicators problem.soft.length).model.Declares c.vars := by
    intro c hc
    obtain ⟨v, hv, rfl⟩ := List.mem_map.mp hc
    refine List.forall_mem_singleton.mpr ?_
    rw [Solver.withIndicators, Model.size_withIndicators]
    exact (List.mem_range'_1.mp hv).2
  have hlinked : ∀ c ∈ (problem.hard ++ links solver.model.size problem.soft) ++
      literals solver.model.size problem.soft.length,
      (solver.withIndicators problem.soft.length).model.Declares c.vars := by
    refine List.forall_mem_append.mpr ⟨List.forall_mem_append.mpr ⟨?_, ?_⟩, hliterals⟩
    · exact fun c hc => Model.declares_withIndicators (hhard c hc)
    · exact fun link hlink => declares_link hsoft hlink
  rw [Solver.maximizeLinked_eq, answerOf, Halt.separate_eq_ok_error_iff] at h
  obtain ⟨c, hc, hfails⟩ := Solver.exists_failsAt_of_ascent hlinked (map_eq_error_iff.mp h)
  rcases List.mem_append.mp hc with hc | hc
  · rcases List.mem_append.mp hc with hc | hc
    · exact ⟨c, List.mem_append_left _ hc, hfails.explains_withIndicators hnone (hhard c hc)⟩
    · obtain ⟨position, hlt, rfl⟩ := mem_links_iff.mp hc
      have hindicator : solver.model.size + position ∈
          List.range' solver.model.size problem.soft.length :=
        List.mem_range'_1.mpr ⟨Nat.le_add_right _ _, Nat.add_lt_add_left hlt _⟩
      have hmem := List.getElem_mem hlt
      exact ⟨_, List.mem_append_right _ hmem,
        hfails.explains_link hindicator (hsoft _ hmem)⟩
  · -- An indicator has a value, and no evaluation of it is an error.
    obtain ⟨v, -, rfl⟩ := List.mem_map.mp hc
    obtain ⟨a, ha, hholds⟩ := hfails
    obtain ⟨error, heval, -⟩ := Solver.holds_eq_error hholds
    obtain ⟨truth, htruth⟩ := ha.exists_literal (hliterals _ hc v List.mem_cons_self)
    rw [htruth] at heval
    cases heval

/-! ## Methods -/

/-- An inquiry about the constraints of the problem fails because of one of them, if it passes
failures on and has none of its own. -/
theorem explains_of_passesOn {α : Type} {x : Inquiry Constraint Assignment Var DiagnosisError α}
    {Own : List (Exchange Constraint Assignment Var) → DiagnosisError → Prop}
    (hx : x.PassesOn .unavailable Own)
    (hown : ∀ exchanges, ¬ Own exchanges (.unavailable (.failure cause)))
    (hasks : x.run.Asks (Question.IsSolveOf fun constraints =>
      ∀ c ∈ constraints, c ∈ problem.hard ++ problem.soft))
    (h : x.result oracle solver = .ok (.error (.unavailable (.failure cause)))) :
    ∃ c ∈ problem.hard ++ problem.soft, solver.model.Explains c cause := by
  rcases hx.failed_or_own (Dialogue.yields_of_run h) with ⟨call, hmem, _, hcause, ⟨⟩⟩ | herror
  · obtain ⟨⟨constraints, hconstraints, hquestion⟩, state, rfl, hanswer⟩ :=
      Dialogue.answer_of_mem_transcript (I := fun state => state = solver) hasks
        (fun question state hquestion hstate => by
          obtain ⟨constraints, -, rfl⟩ := hquestion
          exact hstate) rfl call hmem
    rcases call with ⟨question, misuse | answer⟩ <;> cases hquestion
    · cases hcause
    · obtain rfl := error?_eq_some_iff.mp hcause
      obtain ⟨c, hc, hexplains⟩ := explains_of_solve hnone
        (fun c hc => hdeclared c (hconstraints c hc)) hanswer
      exact ⟨c, hconstraints c hc, hexplains⟩
  · exact absurd herror (hown _)

/-- A correction of an optimum fails only when it is verified. -/
theorem explains_of_correctionOfOptimum (method : Method) {terms : String} {verify : Bool}
    (hkind : method.kind = .correction) (hterms : method.terms? = some terms)
    {optimum : Optimum Assignment}
    (h : (problem.correctionOfOptimum verify terms optimum).result oracle solver =
      .ok (.error (.unavailable (.failure cause)))) :
    ∃ c ∈ problem.hard ++ problem.soft, solver.model.Explains c cause := by
  have hP := Problem.questionsSatisfy_isSolveOf (ι := Var)
    (P := (· ∈ problem.hard ++ problem.soft)) fun c hc => hc
  have hasked : ∃ hard soft, ⟨.maximize hard soft, .ok (.ok optimum)⟩ ∈
      [(⟨.maximize [] [], .ok (.ok optimum)⟩ : Exchange Constraint Assignment Var)] :=
    ⟨[], [], List.mem_singleton_self _⟩
  exact explains_of_passesOn hnone hdeclared
    (problem.passesOn_correctionOfOptimum verify hkind hterms hasked)
    (fun exchanges hblames => hblames.ne_failure cause rfl)
    (hP.asks_correctionOfOptimum verify terms optimum) h

theorem explains_of_resultOf (method : Method) {terms : String} {verify : Bool}
    (hkind : method.kind = .correction) (hterms : method.terms? = some terms)
    {answer : Except Misuse (Except OracleError (Optimum Assignment))}
    (hanswer : answer = .ok (.error (.failure cause)) →
      ∃ c ∈ problem.hard ++ problem.soft, solver.model.Explains c cause)
    (h : resultOf problem verify terms solver answer =
      .ok (.error (.unavailable (.failure cause)))) :
    ∃ c ∈ problem.hard ++ problem.soft, solver.model.Explains c cause := by
  rcases answer with misuse | error | optimum
  · cases h
  · cases h
    exact hanswer rfl
  · exact explains_of_correctionOfOptimum hnone hdeclared method hkind hterms h

theorem explains_of_diagnose {method : Method} {verify : Bool}
    (h : (method.diagnose verify problem).result oracle solver =
      .ok (.error (.unavailable (.failure cause)))) :
    ∃ c ∈ problem.hard ++ problem.soft, solver.model.Explains c cause := by
  have hsoft : problem.soft ≠ [] := by
    intro hsoft
    have hyields := Dialogue.yields_of_run h
    cases method <;> cases Problem.result_of_eq_nil hsoft hyields
  have hP := Problem.questionsSatisfy_isSolveOf (ι := Var)
    (P := (· ∈ problem.hard ++ problem.soft)) fun c hc => hc
  have hpasses := problem.passesOn_diagnose (A := Assignment) (ι := Var) method verify
  have hown : ∀ exchanges : List (Exchange Constraint Assignment Var),
      ¬ problem.Blames method verify exchanges (.unavailable (.failure cause)) :=
    fun exchanges hblames => hblames.ne_failure cause rfl
  cases method with
  | deletion =>
      exact explains_of_passesOn hnone hdeclared hpasses hown (hP.asks_minimalCore verify) h
  | growth =>
      exact explains_of_passesOn hnone hdeclared hpasses hown (hP.asks_correctionByGrowth verify) h
  | indicators =>
      change (problem.correctionByIndicators verify).result oracle solver = _ at h
      rw [result_correctionByIndicators hsoft, Solver.withoutIndicators_of_eq_nil hnone] at h
      exact explains_of_resultOf hnone hdeclared .indicators rfl rfl
        (explains_of_maximizeLinked hnone hdeclared) h
  | softTerms =>
      change (problem.correctionBySoftTerms verify).result oracle solver = _ at h
      cases hsupported : solver.softConstraints with
      | false =>
          rw [result_correctionBySoftTerms_of_not hsoft hsupported] at h
          cases h
      | true =>
          rw [result_correctionBySoftTerms hsoft hsupported] at h
          exact explains_of_resultOf hnone hdeclared .softTerms rfl rfl
            (explains_of_maximize hnone hdeclared hsupported) h

omit hdeclared in
theorem explains_of_first? {constraints : List Constraint}
    (hdeclared : ∀ c ∈ constraints, solver.model.Declares c.vars) {position : Nat}
    (h : (Fault.first? constraints).result oracle solver =
      .ok (.ok (some ⟨position, .failure cause⟩))) :
    ∃ c, constraints[position]? = some c ∧ solver.model.Explains c cause := by
  have hne : constraints ≠ [] := by
    rintro rfl
    cases h
  obtain ⟨found, hfound, hrun⟩ := run_first? hne solver
  obtain rfl : found = some ⟨position, .failure cause⟩ :=
    Except.ok.inj (Except.ok.inj ((congrArg Prod.fst hrun).symm.trans h))
  obtain ⟨c, hc, hsolve⟩ := hfound.exists_constraint
  have hmem : c ∈ constraints := List.mem_of_getElem? hc
  obtain ⟨culprit, hculprit, hexplains⟩ :=
    explains_of_solve hnone (List.forall_mem_singleton.mpr (hdeclared c hmem)) hsolve
  obtain rfl := List.mem_singleton.mp hculprit
  exact ⟨culprit, hc, hexplains⟩

end

/-- Failures name a culprit. The text of a failure is the error to which a constraint of the problem
evaluates under some assignment of the model, and the constraint as it is written over the model;
that it may have been put to the solver behind an indicator does not show. A fault that is a failure
names the constraint at its position. -/
theorem failure_names_constraint (solver : Solver) (hnone : solver.indicators = []) :
    (∀ problem : Problem Constraint,
      (∀ c ∈ problem.hard ++ problem.soft, solver.model.Declares c.vars) →
        ∀ method verify cause,
          (Method.diagnose method verify problem).result oracle solver =
            .ok (.error (.unavailable (.failure cause))) →
              ∃ c ∈ problem.hard ++ problem.soft, solver.model.Explains c cause) ∧
    ∀ constraints : List Constraint, (∀ c ∈ constraints, solver.model.Declares c.vars) →
      ∀ position cause,
        (Fault.first? constraints).result oracle solver =
          .ok (.ok (some ⟨position, .failure cause⟩)) →
            ∃ c, constraints[position]? = some c ∧ solver.model.Explains c cause := by
  constructor
  · intro problem hdeclared method verify cause h
    exact explains_of_diagnose hnone hdeclared h
  · intro constraints hdeclared position cause h
    exact explains_of_first? hnone hdeclared h

/-- The premise of the implication is a variable of the model and stays in the text, but the
indicator before it does not get there. On its own the implication has a solution, so that it is
not at fault. -/
theorem failure_names_constraint_of_implication :
    let solver : Solver :=
      { model := ⟨#[⟨"x", 0, 2, by decide⟩, ⟨"a", 0, 1, by decide⟩]⟩, limit := 100 }
    let division : Constraint := .compare .gt (.binary .rem (.const 5) (.var 0)) (.const 2)
    let problem : Problem Constraint :=
      { soft := [.literal 1, .implies (.literal 1) division] }
    let constraints : List Constraint := problem.soft ++ [division]
    (solver.indicators = [] ∧
      (∀ c ∈ problem.hard ++ problem.soft, solver.model.Declares c.vars) ∧
      (Method.indicators.diagnose false problem).result oracle solver =
        .ok (.error (.unavailable (.failure "division by zero in `a -> 5 % x > 2`"))) ∧
      (∀ c ∈ constraints, solver.model.Declares c.vars) ∧
      (Fault.first? constraints).result oracle solver =
        .ok (.ok (some ⟨2, .failure "division by zero in `5 % x > 2`"⟩))) ∧
    (∃ c ∈ problem.hard ++ problem.soft,
      solver.model.Explains c "division by zero in `a -> 5 % x > 2`") ∧
    ∃ c, constraints[2]? = some c ∧ solver.model.Explains c "division by zero in `5 % x > 2`" := by
  intro solver division problem constraints
  have hproblem : ∀ c ∈ problem.hard ++ problem.soft, solver.model.Declares c.vars := by decide
  have hconstraints : ∀ c ∈ constraints, solver.model.Declares c.vars := by decide
  have hdiagnose : (Method.indicators.diagnose false problem).result oracle solver =
      .ok (.error (.unavailable (.failure "division by zero in `a -> 5 % x > 2`"))) := by
    decide +kernel
  have hfirst : (Fault.first? constraints).result oracle solver =
      .ok (.ok (some ⟨2, .failure "division by zero in `5 % x > 2`"⟩)) := by
    decide +kernel
  obtain ⟨hfailure, hfault⟩ := failure_names_constraint solver rfl
  exact ⟨⟨rfl, hproblem, hdiagnose, hconstraints, hfirst⟩,
    hfailure problem hproblem .indicators false _ hdiagnose,
    hfault constraints hconstraints 2 _ hfirst⟩

end Infeasibility.FiniteDomain
