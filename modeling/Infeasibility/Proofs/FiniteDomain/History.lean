import Infeasibility.Diagnosis.Fault
import Infeasibility.Proofs.Diagnosis.Safety
import Infeasibility.Proofs.FiniteDomain.Indicators
import Infeasibility.Proofs.FiniteDomain.Totality

/-! # Histories of a solver

A solver is used for one request after another, while others raise and lower its flag. Whatever
becomes of a request, be it abandoned for a misuse, it leaves the model and the indicators of the
solver as it found them, so that the next one might as well be made to a new solver. -/

namespace Infeasibility.FiniteDomain

variable {α β ε : Type}

/-! ## Signals -/

/-- A solver with the signals that will raise or lower its flag, one before each question. -/
structure Signalled where
  solver : Solver
  signals : List Bool := []

namespace Signalled

def receive (shared : Signalled) : Signalled :=
  match shared.signals with
  | [] => shared
  | raised :: signals => ⟨shared.solver.setInterrupt raised, signals⟩

/-- A step of the solver, after the next signal. -/
def afterSignal (step : Step Solver α) : Step Signalled α := fun shared =>
  let received := shared.receive
  let (answer, solver) := step received.solver
  (answer, ⟨solver, received.signals⟩)

/-- The solver with its flag lowered. -/
def calm (shared : Signalled) : Solver :=
  shared.solver.setInterrupt false

theorem setInterrupt_setInterrupt {solver : Solver} {first second : Bool} :
    (solver.setInterrupt first).setInterrupt second = solver.setInterrupt second := by
  simp [Solver.setInterrupt, Function.comp_def]

@[simp] theorem calm_receive (shared : Signalled) : shared.receive.calm = shared.calm := by
  rw [receive]
  split
  · rfl
  · exact setInterrupt_setInterrupt

variable {first second : Signalled}

theorem solver_eq_of_calm_eq (h : first.calm = second.calm) :
    first.solver = { second.solver with interrupt := first.solver.interrupt } :=
  calc
    first.solver = { first.calm with interrupt := first.solver.interrupt } := rfl
    _ = { second.calm with interrupt := first.solver.interrupt } := by rw [h]
    _ = { second.solver with interrupt := first.solver.interrupt } := rfl

/-- The flag has no part in what is declared. -/
theorem model_eq_of_calm_eq (h : first.calm = second.calm) :
    first.solver.model = second.solver.model := by
  rw [solver_eq_of_calm_eq h]

theorem indicators_eq_of_calm_eq (h : first.calm = second.calm) :
    first.solver.indicators = second.solver.indicators := by
  rw [solver_eq_of_calm_eq h]

end Signalled

open Signalled

/-- The oracle of a solver whose flag is raised and lowered between questions. -/
def signalled : Oracle Signalled Constraint Assignment Var where
  solve constraints := afterSignal (oracle.solve constraints)
  newIndicator := afterSignal oracle.newIndicator
  implication indicator constraint := afterSignal (oracle.implication indicator constraint)
  release indicators := afterSignal (oracle.release indicators)
  supportsSoft shared := oracle.supportsSoft shared.solver
  maximize hard soft := afterSignal (oracle.maximize hard soft)

/-- Without signals the solver answers as it does on its own. -/
theorem run_signalled_of_nil (x : Dialogue Constraint Assignment Var α) (solver : Solver) :
    x.run signalled ⟨solver, []⟩ =
      ((x.run oracle solver).1, ⟨(x.run oracle solver).2, []⟩) := by
  induction x generalizing solver with
  | done value => rfl
  | abandon misuse => rfl
  | ask question next ih =>
      have hanswer : signalled.answer question ⟨solver, []⟩ =
          ((oracle.answer question solver).1, ⟨(oracle.answer question solver).2, []⟩) := by
        cases question <;> rfl
      rcases hown : oracle.answer question solver with ⟨misuse | answer, solver'⟩
      · rw [hown] at hanswer
        rw [Dialogue.run_ask_of_error hanswer, Dialogue.run_ask_of_error hown]
      · rw [hown] at hanswer
        rw [Dialogue.run_ask_of_ok hanswer, Dialogue.run_ask_of_ok hown]
        exact ih answer solver'

/-! ## Questions that leave no trace -/

/-- The question is answered in every state, and changes nothing but the flag. -/
def IsHarmless (question : Question Constraint Var) : Prop :=
  ∀ shared, ∃ answer shared', signalled.answer question shared = (.ok answer, shared') ∧
    shared'.calm = shared.calm

theorem isHarmless_solve (constraints : List Constraint) : IsHarmless (.solve constraints) := by
  intro shared
  obtain ⟨answer, hanswer⟩ := shared.receive.solver.exists_answer_solve constraints
  exact ⟨answer, shared.receive, congrArg (·, shared.receive) hanswer, calm_receive shared⟩

theorem isHarmless_maximize (hard : List Constraint) (soft : List (SoftTerm Constraint Var)) :
    IsHarmless (.maximize hard soft) := by
  intro shared
  obtain ⟨answer, hanswer⟩ := shared.receive.solver.exists_answer_maximize hard soft
  exact ⟨answer, shared.receive, congrArg (·, shared.receive) hanswer, calm_receive shared⟩

theorem isHarmless_implication (indicator : Var) (constraint : Constraint) :
    IsHarmless (.implication indicator constraint) := by
  intro shared
  exact ⟨_, shared.receive, rfl, calm_receive shared⟩

theorem isHarmless_supportsSoft : IsHarmless .supportsSoft := by
  intro shared
  exact ⟨_, shared, rfl, rfl⟩

/-! ## Dialogues that leave no trace -/

/-- Without indicators in use the dialogue comes to its end, and changes nothing but the flag. -/
def Restores (x : Dialogue Constraint Assignment Var α) : Prop :=
  ∀ shared : Signalled, shared.solver.indicators = [] →
    ∃ value shared', x.run signalled shared = (.ok value, shared') ∧ shared'.calm = shared.calm

theorem restores_of_asks {x : Dialogue Constraint Assignment Var α} (hx : x.Asks IsHarmless) :
    Restores x := by
  intro shared _
  refine Dialogue.exists_run_eq_ok (I := fun state : Signalled => state.calm = shared.calm) hx
    ?_ rfl
  intro question state hharmless hstate
  obtain ⟨answer, state', hanswer, hcalm⟩ := hharmless state
  exact ⟨answer, state', hanswer, hcalm.trans hstate⟩

theorem Restores.bind {x : Dialogue Constraint Assignment Var α}
    {f : α → Dialogue Constraint Assignment Var β} (hx : Restores x)
    (hf : ∀ value, Restores (f value)) : Restores (x >>= f) := by
  intro shared hindicators
  obtain ⟨value, middle, hrun, hmiddle⟩ := hx shared hindicators
  obtain ⟨result, final, hrun', hfinal⟩ :=
    hf value middle ((indicators_eq_of_calm_eq hmiddle).trans hindicators)
  refine ⟨result, final, ?_, hfinal.trans hmiddle⟩
  rw [Dialogue.run_bind, Step.bind_apply, hrun, ← hrun']

theorem restores_done (value : α) :
    Restores (.done value : Dialogue Constraint Assignment Var α) :=
  fun shared _ => ⟨value, shared, rfl, rfl⟩

/-- Without a flag the solver is left exactly as it was. -/
theorem Restores.exists_run_eq {x : Dialogue Constraint Assignment Var α} {solver : Solver}
    (hx : Restores x) (hindicators : solver.indicators = [])
    (hinterrupt : solver.interrupt = none) :
    ∃ value, x.run oracle solver = (.ok value, solver) := by
  obtain ⟨value, shared', hrun, hcalm⟩ := hx ⟨solver, []⟩ hindicators
  rw [run_signalled_of_nil] at hrun
  obtain ⟨hvalue, rfl⟩ := Prod.mk.inj hrun
  have hflag : (x.run oracle solver).2.interrupt = solver.interrupt := by
    have hmap := congrArg Solver.interrupt hcalm
    rw [hinterrupt]
    simpa [calm, Solver.setInterrupt, hinterrupt] using hmap
  have hsolver : (x.run oracle solver).2 = solver := by
    have heq := solver_eq_of_calm_eq hcalm
    rwa [hflag] at heq
  exact ⟨value, Prod.ext hvalue hsolver⟩

/-! ## Checks -/

/-- The dialogue changes nothing but the flag, also where it is abandoned. -/
def LeavesCalm (x : Dialogue Constraint Assignment Var α) : Prop :=
  ∀ shared : Signalled, (x.run signalled shared).2.calm = shared.calm

theorem LeavesCalm.bind {x : Inquiry Constraint Assignment Var ε α}
    {f : α → Inquiry Constraint Assignment Var ε β} (hx : LeavesCalm x.run)
    (hf : ∀ value, LeavesCalm (f value).run) : LeavesCalm (x >>= f).run := by
  intro shared
  have hmiddle := hx shared
  rw [Inquiry.run_bind_apply]
  generalize x.run.run signalled shared = outcome at hmiddle ⊢
  obtain ⟨misuse | error | value, middle⟩ := outcome
  · exact hmiddle
  · exact hmiddle
  · exact (hf value middle).trans hmiddle

theorem leavesCalm_pure (value : α) :
    LeavesCalm (pure value : Inquiry Constraint Assignment Var ε α).run :=
  fun _ => rfl

/-- At a position that does not exist the question is not asked. -/
theorem leavesCalm_ask (problem : Problem Constraint) (positions : List Nat) :
    LeavesCalm (problem.ask positions :
      Inquiry Constraint Assignment Var OracleError (Outcome Assignment)).run := by
  intro shared
  rw [Problem.ask]
  split
  · rfl
  · obtain ⟨answer, shared', hanswer, hcalm⟩ := isHarmless_solve (problem.select positions) shared
    have hrun : (Dialogue.solve (problem.select positions)).run signalled shared =
        (.ok answer, shared') := Dialogue.run_ask_of_ok hanswer
    exact (congrArg (fun outcome => outcome.2.calm) hrun).trans hcalm

theorem leavesCalm_allM {test : α → Inquiry Constraint Assignment Var ε Bool}
    (htest : ∀ x, LeavesCalm (test x).run) (xs : List α) : LeavesCalm (xs.allM test).run := by
  induction xs with
  | nil => exact leavesCalm_pure true
  | cons x xs ih =>
      rw [List.allM]
      refine (htest x).bind fun value => ?_
      cases value with
      | false => exact leavesCalm_pure false
      | true => exact ih

theorem leavesCalm_isMinimal (problem : Problem Constraint) {source : List Constraint}
    (kind : Kind) (diagnosis : Diagnosis source) :
    LeavesCalm (problem.isMinimal kind diagnosis :
      Inquiry Constraint Assignment Var OracleError Bool).run := by
  cases kind with
  | core =>
      refine (leavesCalm_ask problem _).bind fun outcome => ?_
      split
      · exact leavesCalm_pure false
      · exact leavesCalm_allM
          (fun removed => (leavesCalm_ask problem _).bind fun _ => leavesCalm_pure _) _
  | correction =>
      refine (leavesCalm_ask problem _).bind fun outcome => ?_
      split
      · exact leavesCalm_pure false
      · exact leavesCalm_allM
          (fun restored => (leavesCalm_ask problem _).bind fun _ => leavesCalm_pure _) _

/-! ## Indicators -/

theorem run_newIndicators_signalled (constraints : List Constraint) (shared : Signalled) :
    ∃ shared', (constraints.mapM fun _ => (ExceptT.lift Dialogue.newIndicator :
      Inquiry Constraint Assignment Var ε Var)).run.run signalled shared =
        (.ok (.ok (List.range' shared.solver.model.size constraints.length)), shared') ∧
      shared'.calm = shared.calm.withIndicators constraints.length := by
  induction constraints generalizing shared with
  | nil => exact ⟨shared, rfl, Solver.withIndicators_zero.symm⟩
  | cons c constraints ih =>
      have hmodel : shared.receive.solver.model = shared.solver.model :=
        model_eq_of_calm_eq (calm_receive shared)
      let made : Signalled := ⟨shared.receive.solver.addIndicator, shared.receive.signals⟩
      have hnew : (ExceptT.lift Dialogue.newIndicator :
          Inquiry Constraint Assignment Var ε Var).run.run signalled shared =
          (.ok (.ok shared.solver.model.size), made) := by
        rw [← hmodel]
        rfl
      have hsize : made.solver.model.size = shared.solver.model.size + 1 := by
        rw [← hmodel]
        simp [made, Solver.addIndicator, Model.addBoolean, Model.push, Model.size]
      have hcalm : made.calm = shared.calm.addIndicator := by
        rw [← calm_receive shared]
        rfl
      obtain ⟨shared', hrun, hshared'⟩ := ih made
      refine ⟨shared', ?_, ?_⟩
      · rw [List.mapM_cons, Inquiry.run_bind_of_ok hnew, Inquiry.run_bind_of_ok hrun, hsize,
          List.length_cons, List.range'_succ]
        rfl
      · rw [hshared', hcalm, Solver.withIndicators_addIndicator, List.length_cons]

theorem run_implications_signalled (pairs : List (Var × Constraint)) (shared : Signalled) :
    ∃ links shared', (pairs.mapM fun (indicator, constraint) =>
      (ExceptT.lift (Dialogue.implication indicator constraint) :
        Inquiry Constraint Assignment Var ε Constraint)).run.run signalled shared =
          (.ok (.ok links), shared') ∧ shared'.calm = shared.calm := by
  induction pairs generalizing shared with
  | nil => exact ⟨[], shared, rfl, rfl⟩
  | cons pair pairs ih =>
      obtain ⟨indicator, constraint⟩ := pair
      obtain ⟨link, linked, hlink, hlinked⟩ := isHarmless_implication indicator constraint shared
      obtain ⟨links, shared', hrun, hshared'⟩ := ih linked
      refine ⟨link :: links, shared', ?_, hshared'.trans hlinked⟩
      rw [List.mapM_cons, Inquiry.run_bind_of_ok
        (Inquiry.run_lift_of_ok (Dialogue.run_ask_of_ok hlink)), Inquiry.run_bind_of_ok hrun]
      rfl

/-- The release undoes what was declared, whatever came of the question for an optimum. -/
theorem restores_maximizeIndicators (problem : Problem Constraint) :
    Restores problem.maximizeIndicators.run := by
  intro shared hindicators
  obtain ⟨made, hmade, hcalm⟩ := run_newIndicators_signalled problem.soft shared
  obtain ⟨links, linked, hlinked, hcalm'⟩ := run_implications_signalled _ made
  obtain ⟨answer, asked, hasked, hcalm''⟩ := isHarmless_maximize _ _ linked
  let released := List.range' shared.solver.model.size problem.soft.length
  let final : Signalled := ⟨asked.receive.solver.release released, asked.receive.signals⟩
  refine ⟨answer, final, Problem.run_maximizeIndicators hmade hlinked hasked rfl, ?_⟩
  have hasked : asked.receive.calm = shared.calm.withIndicators problem.soft.length := by
    rw [calm_receive, hcalm'', hcalm', hcalm]
  calc
    final.calm = asked.receive.calm.release released := rfl
    _ = (shared.calm.withIndicators problem.soft.length).release released := by rw [hasked]
    _ = shared.calm.withoutIndicators released := Solver.release_withIndicators
    _ = shared.calm := by simp [Solver.withoutIndicators, calm, Solver.setInterrupt, hindicators]

theorem restores_correctionByIndicators (problem : Problem Constraint) (verify : Bool) :
    Restores (problem.correctionByIndicators verify).run := by
  rw [Problem.correctionByIndicators]
  by_cases hsoft : problem.soft = []
  · rw [Problem.requireSoft_of_eq_nil hsoft]
    exact restores_done _
  rw [Problem.requireSoft_of_ne_nil hsoft, pure_bind, ExceptT.run_bind]
  have hP : problem.QuestionsSatisfy IsHarmless := fun _ _ _ => isHarmless_solve _
  refine Restores.bind ?_ fun result => ?_
  · change Restores (Except.mapError DiagnosisError.unavailable <$> problem.maximizeIndicators.run)
    rw [← bind_pure_comp]
    exact (restores_maximizeIndicators problem).bind fun _ => restores_done _
  · cases result with
    | error error => exact restores_done _
    | ok optimum => exact restores_of_asks (hP.asks_correctionOfOptimum verify _ optimum)

/-- A method releases all indicators that it declares. -/
theorem restores_diagnose (method : Method) (verify : Bool) (problem : Problem Constraint) :
    Restores (method.diagnose verify problem).run := by
  have hP : problem.QuestionsSatisfy IsHarmless := fun _ _ _ => isHarmless_solve _
  cases method with
  | deletion => exact restores_of_asks (hP.asks_minimalCore verify)
  | growth => exact restores_of_asks (hP.asks_correctionByGrowth verify)
  | indicators => exact restores_correctionByIndicators problem verify
  | softTerms =>
      exact restores_of_asks (hP.asks_correctionBySoftTerms verify isHarmless_supportsSoft
        fun hard soft _ => isHarmless_maximize hard soft)

/-! ## Requests -/

/-- What a solver can be used for. -/
inductive Request where
  | diagnose (method : Method) (verify : Bool) (problem : Problem Constraint)
  | check (kind : Kind) (problem : Problem Constraint) {source : List Constraint}
      (diagnosis : Diagnosis source)
  | isolate (constraints : List Constraint)

/-- What comes of a request, if it is no misuse. -/
def Request.Answer : Request → Type
  | diagnose _ _ problem => Except DiagnosisError (Diagnosis problem.soft)
  | check .. => Except OracleError Bool
  | isolate _ => Except DiagnosisError (Option Fault)

def Request.dialogue :
    (request : Request) → Dialogue Constraint Assignment Var request.Answer
  | diagnose method verify problem => (method.diagnose verify problem).run
  | check kind problem diagnosis => (problem.isMinimal kind diagnosis).run
  | isolate constraints => (Fault.first? constraints).run

/-- A diagnosis that is to be checked speaks of no more constraints than there are soft ones. -/
def Request.Fits : Request → Prop
  | @check _ problem source _ => source.length ≤ problem.soft.length
  | _ => True

theorem asks_search (position : Nat) (constraints : List Constraint) :
    (Fault.search position constraints :
      Dialogue Constraint Assignment Var (Option Fault)).Asks IsHarmless := by
  induction constraints generalizing position with
  | nil => exact Dialogue.asks_done IsHarmless none
  | cons c constraints ih =>
      refine Dialogue.Asks.bind ⟨isHarmless_solve [c], fun _ => trivial⟩ fun _ verdict _ => ?_
      cases verdict with
      | error error => exact Dialogue.asks_done IsHarmless _
      | ok outcome => exact ih (position + 1)

theorem restores_dialogue {request : Request} (hfits : request.Fits) :
    Restores request.dialogue := by
  cases request with
  | diagnose method verify problem => exact restores_diagnose method verify problem
  | check kind problem diagnosis =>
      have hP : problem.QuestionsSatisfy IsHarmless := fun _ _ _ => isHarmless_solve _
      exact restores_of_asks (hP.asks_isMinimal hfits kind diagnosis)
  | isolate constraints =>
      rw [Request.dialogue, Fault.first?]
      split
      · exact restores_done _
      · exact restores_of_asks (Inquiry.asks_lift (asks_search 0 constraints))

/-- Answers a request, while the signals arrive. -/
def Signalled.serve (shared : Signalled) (request : Request) :
    Except Misuse request.Answer × Signalled :=
  request.dialogue.run signalled shared

/-- What is left after some requests. -/
def Signalled.after (shared : Signalled) (requests : List Request) : Signalled :=
  requests.foldl (fun shared request => (shared.serve request).2) shared

namespace Signalled

variable {shared : Signalled}

theorem exists_serve_eq {request : Request} (hfits : request.Fits)
    (h : shared.solver.indicators = []) :
    ∃ answer shared', shared.serve request = (.ok answer, shared') ∧ shared'.calm = shared.calm :=
  restores_dialogue hfits shared h

/-- No request leaves a trace. -/
theorem calm_serve (h : shared.solver.indicators = []) (request : Request) :
    (shared.serve request).2.calm = shared.calm := by
  have hcalm : ∀ request : Request, request.Fits →
      (shared.serve request).2.calm = shared.calm := by
    intro request hfits
    obtain ⟨answer, shared', hserved, hcalm⟩ := exists_serve_eq hfits h
    rw [hserved, hcalm]
  cases request with
  | check kind problem diagnosis => exact leavesCalm_isMinimal problem kind diagnosis shared
  | diagnose method verify problem => exact hcalm (.diagnose method verify problem) trivial
  | isolate constraints => exact hcalm (.isolate constraints) trivial

theorem calm_after (h : shared.solver.indicators = []) (requests : List Request) :
    (shared.after requests).calm = shared.calm := by
  induction requests generalizing shared with
  | nil => rfl
  | cons request requests ih =>
      have hcalm := calm_serve h request
      have hindicators : (shared.serve request).2.solver.indicators = [] :=
        (indicators_eq_of_calm_eq hcalm).trans h
      rw [after, List.foldl_cons, ← after, ih hindicators, hcalm]

end Signalled

/-- After any requests to a new solver, whatever came of them and whenever its flag was raised, the
solver has the model it was made with and no indicators. What comes of every further request is
what comes of it for a solver that is new but for the state of its flag, and that is an answer
unless positions are to be checked that do not exist. -/
theorem history_independent (model : Model) (limit : Nat) (interrupt : Option Bool)
    (softConstraints : Bool) (signals : List Bool) (requests : List Request) :
    let new := fun interrupt => ({ model, limit, interrupt, softConstraints } : Solver)
    let used := Signalled.after ⟨new interrupt, signals⟩ requests
    (used.solver.model = model ∧ used.solver.indicators = []) ∧
    ∀ request,
      (used.serve request).1 =
        (Signalled.serve ⟨new used.solver.interrupt, used.signals⟩ request).1 ∧
      (request.Fits → ∃ answer, (used.serve request).1 = .ok answer) := by
  intro new used
  have hcalm : used.calm = Signalled.calm ⟨new interrupt, signals⟩ :=
    Signalled.calm_after rfl requests
  have hindicators : used.solver.indicators = [] := indicators_eq_of_calm_eq hcalm
  have hnew : used = ⟨new used.solver.interrupt, used.signals⟩ :=
    congrArg (Signalled.mk · used.signals) (solver_eq_of_calm_eq hcalm)
  refine ⟨⟨model_eq_of_calm_eq hcalm, hindicators⟩, fun request => ⟨?_, fun hfits => ?_⟩⟩
  · rw [← hnew]
  · obtain ⟨answer, shared', hserved, -⟩ := Signalled.exists_serve_eq hfits hindicators
    exact ⟨answer, congrArg Prod.fst hserved⟩

/-- A diagnosis of two constraints is checked as one of a single constraint, which is a misuse. With
the next request the solver makes an indicator as if nothing had happened. -/
theorem answered_after_stray_position :
    let solver : Solver := { model := ({} : Model).addBoolean "p", limit := 10 }
    let problem : Problem Constraint := { soft := [.literal 0], hard := [.not (.literal 0)] }
    let both : Diagnosis [Constraint.literal 0, .not (.literal 0)] :=
      ⟨[0, 1], by decide, by decide⟩
    let stray : Request := .check .core problem both
    let request : Request := .diagnose .indicators true problem
    (Signalled.serve ⟨solver, []⟩ stray).1 = .error (.noSuchPosition 1) ∧ request.Fits ∧
      ∃ answer, ((Signalled.after ⟨solver, []⟩ [stray]).serve request).1 = .ok answer := by
  intro solver problem both stray request
  have hfits : request.Fits := trivial
  exact ⟨rfl, hfits,
    ((history_independent solver.model 10 none true [] [stray]).2 request).2 hfits⟩

/-- The flag is raised while two indicators are in use. -/
example :
    let solver : Solver :=
      { model := ({} : Model).addBoolean "p", limit := 10, interrupt := some false }
    let shared : Signalled := ⟨solver, [false, false, false, false, true]⟩
    let problem : Problem Constraint := { soft := [.literal 0, .not (.literal 0)] }
    (shared.serve (.diagnose .indicators true problem)).2.solver =
      { solver with interrupt := some true } := by
  decide +kernel

end Infeasibility.FiniteDomain
