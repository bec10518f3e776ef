import Infeasibility.Proofs.Diagnosis.Certification
import Infeasibility.Proofs.Diagnosis.Propagation
import Infeasibility.Proofs.Dialogue.Counting

/-! # The cost of a diagnosis

Deletion and growth ask for one verdict on each soft constraint. To these comes the verdict that
there is something to diagnose at all. The methods that optimize ask once. A verified diagnosis
costs one verdict more for each of its elements, and one for itself. -/

namespace Infeasibility

variable {σ C A ι : Type}

/-! ## Parts of the methods -/

namespace Inquiry

variable {ε α β : Type} {exchanges : List (Exchange C A ι)}

theorem costs_solve (constraints : List C) :
    (solve constraints : Inquiry C A ι OracleError (Outcome A)).Costs (1, 0) := by
  intro exchanges result h _
  rw [Dialogue.Yields.single h]
  rfl

theorem costs_of_asksAtMost_zero {x : Inquiry C A ι ε α} (hx : x.run.AsksAtMost 0) :
    x.Costs 0 := by
  intro exchanges result h _
  rw [hx.eq_nil_of_yields h, cost_nil]

/-- Continues an inquiry after a call, unless it failed. -/
def afterCall (f : α → Inquiry C A ι DiagnosisError β) :
    Except OracleError α → Dialogue C A ι (Except DiagnosisError β)
  | .error error => .done (.error (.unavailable error))
  | .ok value => (f value).run

theorem run_solve_bind (constraints : List C) (f : Outcome A → Inquiry C A ι DiagnosisError β) :
    ((solve constraints).orUnavailable >>= f).run = .ask (.solve constraints) (afterCall f) := by
  refine congrArg (Dialogue.ask _) (funext fun answer => ?_)
  cases answer <;> rfl

theorem run_maximize_bind (hard : List C) (soft : List (SoftTerm C ι))
    (f : Optimum A → Inquiry C A ι DiagnosisError β) :
    ((maximize hard soft).orUnavailable >>= f).run = .ask (.maximize hard soft) (afterCall f) := by
  refine congrArg (Dialogue.ask _) (funext fun answer => ?_)
  cases answer <;> rfl

theorem asksAtMost_afterCall {f : α → Inquiry C A ι DiagnosisError β} {bound : Nat}
    (hf : ∀ value, (f value).run.AsksAtMost bound) (answer : Except OracleError α) :
    (afterCall f answer).AsksAtMost bound := by
  cases answer with
  | error error => exact Dialogue.asksAtMost_done bound _
  | ok value => exact hf value

/-- A dialogue in which nothing can fail gives a value for each element of a list. -/
theorem ok_of_yields_mapM_lift {f : α → Dialogue C A ι β} {xs : List α} {result : Except ε (List β)}
    (h : (xs.mapM fun x => (ExceptT.lift (f x) : Inquiry C A ι ε β)).run.Yields exchanges result) :
    ∃ ys, result = .ok ys := by
  induction xs generalizing exchanges result with
  | nil => exact ⟨[], (Dialogue.yields_done_iff.mp h).2⟩
  | cons x xs ih =>
      rw [List.mapM_cons] at h
      rcases yields_bind_iff.mp h with ⟨error, hlift, rfl⟩ | ⟨_, _, y, rfl, -, h⟩
      · obtain ⟨value, -, hvalue⟩ := yields_lift_iff.mp hlift
        cases hvalue
      rcases yields_bind_iff.mp h with ⟨error, hrest, rfl⟩ | ⟨_, _, ys, rfl, -, h⟩
      · obtain ⟨ys, hys⟩ := ih hrest
        cases hys
      · exact ⟨y :: ys, (Dialogue.yields_done_iff.mp h).2⟩

end Inquiry

namespace Problem

variable {problem : Problem C} {exchanges : List (Exchange C A ι)}

theorem costs_ask (problem : Problem C) (positions : List Nat) :
    (problem.ask positions : Inquiry C A ι OracleError (Outcome A)).Costs (1, 0) := by
  rw [ask]
  split
  · exact Inquiry.costs_abandon _ _
  · exact Inquiry.costs_solve _

theorem asksAtMost_ask (problem : Problem C) (positions : List Nat) :
    (problem.ask positions : Inquiry C A ι OracleError (Outcome A)).run.AsksAtMost 1 := by
  rw [ask]
  split
  · exact Dialogue.asksAtMost_abandon 1 _
  · exact fun answer => Dialogue.asksAtMost_done 0 answer

/-- Each pending position takes one verdict, whether it is kept or dropped. -/
theorem costs_shrink (problem : Problem C) (needed pending : List Nat) :
    (problem.shrink needed pending : Inquiry C A ι OracleError (List Nat)).Costs
      (pending.length, 0) := by
  induction pending generalizing needed with
  | nil => exact Inquiry.costs_pure needed
  | cons position pending ih =>
      rw [List.length_cons, verdicts_succ]
      refine (problem.costs_ask _).bind (problem.isTransparent_ask _) fun outcome => ?_
      cases outcome.isSat with
      | true => exact ih (needed ++ [position])
      | false => exact ih needed

theorem asksAtMost_shrink (problem : Problem C) (needed pending : List Nat) :
    (problem.shrink needed pending : Inquiry C A ι OracleError (List Nat)).run.AsksAtMost
      pending.length := by
  induction pending generalizing needed with
  | nil => exact Dialogue.asksAtMost_done 0 _
  | cons position pending ih =>
      rw [List.length_cons, Nat.add_comm]
      refine Inquiry.asksAtMost_bind (problem.asksAtMost_ask _) fun outcome => ?_
      cases outcome.isSat with
      | true => exact ih (needed ++ [position])
      | false => exact ih needed

@[inherit_doc costs_shrink]
theorem costs_grow (problem : Problem C) (kept rejected pending : List Nat) :
    (problem.grow kept rejected pending : Inquiry C A ι OracleError (List Nat)).Costs
      (pending.length, 0) := by
  induction pending generalizing kept rejected with
  | nil => exact Inquiry.costs_pure rejected
  | cons position pending ih =>
      rw [List.length_cons, verdicts_succ]
      refine (problem.costs_ask _).bind (problem.isTransparent_ask _) fun outcome => ?_
      cases outcome.isSat with
      | true => exact ih (kept ++ [position]) rejected
      | false => exact ih kept (rejected ++ [position])

/-! ### Conclusions -/

/-- A conclusion that is not verified asks nothing. -/
theorem asksAtMost_conclude (problem : Problem C) (kind : Kind) (positions : List Nat) :
    (problem.conclude false kind positions :
      Inquiry C A ι DiagnosisError (Diagnosis problem.soft)).run.AsksAtMost 0 := by
  rw [conclude]
  split
  · exact Dialogue.asksAtMost_abandon 0 _
  · exact Dialogue.asksAtMost_done 0 _

theorem asksAtMost_reject (problem : Problem C) (rejected : List Nat) :
    (problem.reject false rejected :
      Inquiry C A ι DiagnosisError (Diagnosis problem.soft)).run.AsksAtMost 0 := by
  rw [reject]
  split
  · exact Dialogue.asksAtMost_done 0 _
  · exact problem.asksAtMost_conclude .correction rejected

theorem asksAtMost_correctionOfOptimum (problem : Problem C) (terms : String)
    (optimum : Optimum A) :
    (problem.correctionOfOptimum false terms optimum :
      Inquiry C A ι DiagnosisError (Diagnosis problem.soft)).run.AsksAtMost 0 := by
  cases optimum with
  | unsatisfiable => exact Dialogue.asksAtMost_done 0 _
  | optimal satisfied assignment =>
      rw [correctionOfOptimum]
      split
      · exact problem.asksAtMost_reject _
      · exact Dialogue.asksAtMost_done 0 _

/-! ### Deletion -/

/-- The rest of deletion, after the verdict on all constraints. -/
def minimalCoreAfter (problem : Problem C) (outcome : Outcome A) :
    Inquiry C A ι DiagnosisError (Diagnosis problem.soft) := do
  if outcome.isSat then
    throw (.invalidInput .satisfiable)
  else
    let core ← (problem.shrink [] (List.range problem.soft.length)).orUnavailable
    if core.isEmpty then
      throw (.invalidInput .hardUnsatisfiable)
    else
      problem.conclude false .core core

theorem run_minimalCore (hsoft : problem.soft ≠ []) :
    (problem.minimalCore false : Inquiry C A ι DiagnosisError (Diagnosis problem.soft)).run =
      .ask (.solve (problem.hard ++ problem.soft))
        (Inquiry.afterCall problem.minimalCoreAfter) := by
  have hrange : ∀ position ∈ List.range problem.soft.length, position < problem.soft.length :=
    fun position hmem => List.mem_range.mp hmem
  rw [minimalCore, requireSoft_of_ne_nil hsoft, pure_bind]
  dsimp only
  rw [ask_eq_solve problem hrange, select_range, Inquiry.run_solve_bind]
  rfl

/-- What is left after the loop asks nothing. -/
theorem asksAtMost_afterShrink (problem : Problem C) (core : List Nat) :
    (if core.isEmpty then throw (.invalidInput .hardUnsatisfiable)
      else problem.conclude false .core core :
        Inquiry C A ι DiagnosisError (Diagnosis problem.soft)).run.AsksAtMost 0 := by
  split
  · exact Dialogue.asksAtMost_done 0 _
  · exact problem.asksAtMost_conclude .core core

theorem asksAtMost_minimalCoreAfter (problem : Problem C) (outcome : Outcome A) :
    (problem.minimalCoreAfter outcome :
      Inquiry C A ι DiagnosisError (Diagnosis problem.soft)).run.AsksAtMost
        problem.soft.length := by
  rw [minimalCoreAfter]
  split
  · exact Dialogue.asksAtMost_done _ _
  · have hshrink := problem.asksAtMost_shrink (A := A) (ι := ι) []
      (List.range problem.soft.length)
    rw [List.length_range] at hshrink
    exact Inquiry.asksAtMost_bind (Inquiry.asksAtMost_orUnavailable hshrink)
      problem.asksAtMost_afterShrink

theorem asksAtMost_minimalCore (hsoft : problem.soft ≠ []) :
    (problem.minimalCore false :
      Inquiry C A ι DiagnosisError (Diagnosis problem.soft)).run.AsksAtMost
        (problem.soft.length + 1) := by
  rw [run_minimalCore hsoft]
  exact Inquiry.asksAtMost_afterCall problem.asksAtMost_minimalCoreAfter

theorem costs_minimalCoreAfter (problem : Problem C) {outcome : Outcome A}
    (h : outcome.isSat = false) :
    (problem.minimalCoreAfter outcome :
      Inquiry C A ι DiagnosisError (Diagnosis problem.soft)).Costs
        (problem.soft.length, 0) := by
  have hshrink := problem.costs_shrink (A := A) (ι := ι) [] (List.range problem.soft.length)
  rw [List.length_range] at hshrink
  rw [minimalCoreAfter, if_neg (by simp [h])]
  exact hshrink.orUnavailable.bind (problem.isTransparent_shrink _ _).orUnavailable fun core =>
    Inquiry.costs_of_asksAtMost_zero (problem.asksAtMost_afterShrink core)

/-! ### Growth -/

/-- Hard constraints take one verdict, if there are any. -/
theorem cost_requireHard (h : problem.requireHard.run.Yields exchanges (.ok ())) :
    cost exchanges = (if problem.hard.isEmpty then 0 else 1, 0) := by
  rw [requireHard] at h
  split at h
  · rename_i hempty
    obtain ⟨rfl, -⟩ := Dialogue.yields_done_iff.mp h
    rw [if_pos hempty]
    rfl
  · rename_i hempty
    obtain ⟨first, second, outcome, rfl, hask, h⟩ := Inquiry.yields_bind_ok_iff.mp h
    have hfirst := yields_ask (by simp) (Inquiry.yields_orUnavailable_ok_iff.mp hask)
    split at h
    · cases (Dialogue.yields_done_iff.mp h).2
    · obtain ⟨rfl, -⟩ := Dialogue.yields_done_iff.mp h
      simp [hfirst, hempty, Question.cost]

theorem cost_correctionByGrowth (hsoft : problem.soft ≠ [])
    {result : Except DiagnosisError (Diagnosis problem.soft)}
    (h : (problem.correctionByGrowth false).run.Yields exchanges result)
    (hunfailing : Unfailing exchanges) (hhard : ¬ Answered exchanges problem.hard false) :
    cost exchanges = (problem.soft.length + if problem.hard.isEmpty then 0 else 1, 0) := by
  rw [correctionByGrowth, requireSoft_of_ne_nil hsoft, pure_bind] at h
  rcases Inquiry.yields_bind_iff.mp h with ⟨error, herror, -⟩ | ⟨first, rest, _, rfl, hfirst, h⟩
  · rcases yields_requireHard herror with ⟨cause, -, hfailed⟩ | ⟨hverdict, -⟩ | ⟨-, hok⟩
    · exact absurd hunfailing hfailed.not_unfailing
    · exact absurd hverdict hhard
    · cases hok
  · have hgrow := problem.costs_grow (A := A) (ι := ι) [] [] (List.range problem.soft.length)
    rw [List.length_range] at hgrow
    have hrest := hgrow.orUnavailable.bind (problem.isTransparent_grow _ _ _).orUnavailable
      fun rejected => Inquiry.costs_of_asksAtMost_zero (problem.asksAtMost_reject rejected)
    rw [cost_append, cost_requireHard hfirst,
      hrest rest result h (unfailing_append_iff.mp hunfailing).2]
    simp [Nat.add_comm]

/-! ### Optimization -/

/-- The indicators are maximized once, whatever comes of it; to make, link and release them takes
neither a verdict nor an optimum. -/
theorem cost_maximizeIndicators {result : Except OracleError (Optimum A)}
    (h : problem.maximizeIndicators.run.Yields exchanges result) : cost exchanges = (0, 1) := by
  rw [maximizeIndicators] at h
  rcases Inquiry.yields_bind_iff.mp h with ⟨error, herror, -⟩ | ⟨made, _, indicators, rfl, hmade, h⟩
  · obtain ⟨_, hok⟩ := Inquiry.ok_of_yields_mapM_lift herror
    cases hok
  rcases Inquiry.yields_bind_iff.mp h with ⟨error, herror, -⟩ | ⟨linked, _, links, rfl, hlinked, h⟩
  · obtain ⟨_, hok⟩ := Inquiry.ok_of_yields_mapM_lift herror
    cases hok
  have hfree : ∀ exchange ∈ made, exchange.question.IsFree :=
    hmade.question_of_asks (Inquiry.asks_mapM fun _ _ =>
      Inquiry.asks_lift ⟨rfl, fun _ => trivial⟩)
  have hfree' : ∀ exchange ∈ linked, exchange.question.IsFree :=
    hlinked.question_of_asks (Inquiry.asks_mapM fun _ _ =>
      Inquiry.asks_lift ⟨rfl, fun _ => trivial⟩)
  rw [cost_append, cost_append, cost_eq_zero hfree, cost_eq_zero hfree', yields_maximize_release h]
  rfl

theorem cost_correctionByIndicators (hsoft : problem.soft ≠ [])
    {result : Except DiagnosisError (Diagnosis problem.soft)}
    (h : (problem.correctionByIndicators false).run.Yields exchanges result) :
    cost exchanges = (0, 1) := by
  rw [correctionByIndicators, requireSoft_of_ne_nil hsoft, pure_bind] at h
  rcases Inquiry.yields_bind_iff.mp h with
    ⟨error, herror, -⟩ | ⟨first, rest, optimum, rfl, hfirst, h⟩
  · obtain ⟨inner, hinner, -⟩ := Inquiry.yields_orUnavailable_iff.mp herror
    exact cost_maximizeIndicators hinner
  · rw [cost_append, cost_maximizeIndicators (Inquiry.yields_orUnavailable_ok_iff.mp hfirst),
      (problem.asksAtMost_correctionOfOptimum "indicators" optimum).eq_nil_of_yields h]
    rfl

/-- An oracle that accepts soft terms is asked for an optimum, and no other is. -/
theorem run_correctionBySoftTerms (hsoft : problem.soft ≠ []) :
    (problem.correctionBySoftTerms false :
      Inquiry C A ι DiagnosisError (Diagnosis problem.soft)).run =
      .ask .supportsSoft fun supported =>
        if supported then
          .ask (.maximize problem.hard (problem.soft.map .constraint))
            (Inquiry.afterCall (problem.correctionOfOptimum false "soft constraints"))
        else
          .done (.error .softTermsUnsupported) := by
  rw [correctionBySoftTerms, requireSoft_of_ne_nil hsoft, pure_bind]
  refine congrArg (Dialogue.ask _) (funext fun supported => ?_)
  cases supported with
  | false => rfl
  | true => exact Inquiry.run_maximize_bind _ _ _

/-! ## Transcripts of the methods -/

variable {oracle : Oracle σ C A ι} {state : σ}

/-- The first answer is a verdict of this kind. -/
def Opens (exchanges : List (Exchange C A ι)) (satisfiable : Bool) : Prop :=
  ∃ constraints first rest, exchanges = first :: rest ∧
    first.IsVerdict constraints satisfiable

theorem cost_minimalCore_of_satisfiable (hsoft : problem.soft ≠ [])
    (h : Opens ((problem.minimalCore false).run.transcript oracle state) true) :
    cost ((problem.minimalCore false).run.transcript oracle state) = (1, 0) := by
  rw [run_minimalCore hsoft, Dialogue.transcript] at h ⊢
  rcases hanswer : oracle.answer (.solve (problem.hard ++ problem.soft)) state with
    ⟨misuse | error | outcome, state'⟩ <;> rw [hanswer] at h
  · obtain ⟨_, _, _, hfirst, _, -, rfl⟩ := h
    cases hfirst
  · obtain ⟨_, _, _, hfirst, _, -, rfl⟩ := h
    cases hfirst
  · obtain ⟨_, _, _, hfirst, _, hsat, rfl⟩ := h
    cases hfirst
    have hrest : (problem.minimalCoreAfter outcome :
        Inquiry C A ι DiagnosisError (Diagnosis problem.soft)) =
        throw (.invalidInput .satisfiable) := if_pos hsat
    change cost (⟨.solve (problem.hard ++ problem.soft), .ok (.ok outcome)⟩ ::
      (problem.minimalCoreAfter outcome).run.transcript oracle state') = _
    rw [hrest]
    rfl

theorem cost_minimalCore_of_unsatisfiable (hsoft : problem.soft ≠ [])
    {result : Except DiagnosisError (Diagnosis problem.soft)}
    (h : (problem.minimalCore false).run.Yields exchanges result)
    (hopens : Opens exchanges false) (hunfailing : Unfailing exchanges) :
    cost exchanges = (problem.soft.length + 1, 0) := by
  rw [run_minimalCore hsoft] at h
  obtain ⟨answer, rest, rfl, hrest⟩ := Dialogue.yields_ask_iff.mp h
  obtain ⟨_, _, _, hfirst, outcome, hunsat, rfl⟩ := hopens
  cases hfirst
  have hsplit : Unfailing ([⟨.solve (problem.hard ++ problem.soft), .ok (.ok outcome)⟩] ++ rest) :=
    hunfailing
  rw [cost_cons, problem.costs_minimalCoreAfter hunsat rest result hrest
    (unfailing_append_iff.mp hsplit).2, verdicts_succ]
  rfl

theorem cost_correctionBySoftTerms (hsoft : problem.soft ≠ []) :
    cost ((problem.correctionBySoftTerms false).run.transcript oracle state) =
      (0, if oracle.supportsSoft state then 1 else 0) := by
  have hanswer : oracle.answer .supportsSoft state = (.ok (oracle.supportsSoft state), state) :=
    rfl
  rw [run_correctionBySoftTerms hsoft, Dialogue.transcript, hanswer]
  cases oracle.supportsSoft state with
  | false => rfl
  | true =>
      simp only [if_true]
      rw [Dialogue.transcript]
      rcases oracle.answer (.maximize problem.hard (problem.soft.map .constraint)) state with
        ⟨misuse | answer, state'⟩
      · rfl
      · have hnothing := Dialogue.length_transcript_le (Inquiry.asksAtMost_afterCall
          (problem.asksAtMost_correctionOfOptimum "soft constraints") answer) oracle state'
        rw [cost_cons, cost_cons, List.eq_nil_of_length_eq_zero (Nat.le_zero.mp hnothing)]
        rfl

/-- A certificate takes one verdict for the diagnosis and one for each of its elements. -/
theorem Certified.cost_eq {kind : Kind} {diagnosis : Diagnosis problem.soft}
    (h : problem.Certified kind diagnosis exchanges) :
    cost exchanges = (diagnosis.size + 1, 0) := by
  have hsolves : ∀ exchange ∈ exchanges, exchange.question.IsSolve := by
    intro exchange hmem
    rw [← h.solves_eq] at hmem
    obtain ⟨-, hsolve⟩ := List.mem_filter.mp hmem
    cases hquestion : exchange.question with
    | solve constraints => exact ⟨constraints, rfl⟩
    | _ => simp [hquestion, Question.isSolve] at hsolve
  rw [cost_eq_of_isSolve hsolves, ← List.Forall₂.length_eq h, length_certificate]

end Problem

/-! ## Counted runs -/

namespace Method

variable (oracle : Oracle σ C A ι) (method : Method) (verify : Bool) (problem : Problem C)
  (state : σ)

/-- The exchanges of a method with an oracle that counts from zero. -/
def trace : List (Exchange C A ι) :=
  (method.diagnose verify problem).run.transcript oracle.counting { inner := state }

/-- The verdicts and the optima that the oracle has counted in the end. -/
def spent : Nat × Nat :=
  ((method.diagnose verify problem).run.run oracle.counting { inner := state }).2.counts

/-- What comes of the method. -/
def outcome : Except Misuse (Except DiagnosisError (Diagnosis problem.soft)) :=
  (method.diagnose verify problem).result oracle.counting { inner := state }

theorem spent_eq_cost :
    method.spent oracle verify problem state = cost (method.trace oracle verify problem state) := by
  rw [spent, counts_run]
  exact zero_add _

variable {oracle method problem state}

/-- The search costs the same whether or not its diagnosis is verified. -/
theorem spent_true {diagnosis : Diagnosis problem.soft}
    (h : method.outcome oracle true problem state = .ok (.ok diagnosis)) :
    method.spent oracle true problem state =
      method.spent oracle false problem state + (diagnosis.size + 1, 0) := by
  rw [outcome, Inquiry.result, Problem.diagnose_true, Inquiry.run_bind_apply] at h
  rw [spent, spent, Problem.diagnose_true, Inquiry.run_bind_apply]
  rcases hsearch : (method.diagnose false problem).run.run oracle.counting { inner := state } with
    ⟨misuse | error | found, middle⟩
  · rw [hsearch] at h
    cases h
  · rw [hsearch] at h
    cases h
  · rw [hsearch] at h
    obtain ⟨-, hcertified⟩ := Problem.certified_of_yields_verified (Dialogue.yields_of_run h)
    exact (counts_run oracle _ middle).trans (congrArg _ (Problem.Certified.cost_eq hcertified))

end Method

open Problem

/-- The cost of each method for any oracle. Deletion stops after one verdict if there is nothing to
diagnose; otherwise it asks for one verdict more than there are soft constraints, or for fewer if a
call fails. Growth asks for one verdict on each soft constraint and for one on the hard constraints,
if there are any, unless a call fails or these contradict each other. An optimum is asked for by the
other two methods only, once. -/
theorem diagnose_cost (oracle : Oracle σ C A ι) (problem : Problem C) (hsoft : problem.soft ≠ [])
    (state : σ) :
    (Opens (Method.deletion.trace oracle false problem state) true →
      Method.deletion.spent oracle false problem state = (1, 0)) ∧
    (Opens (Method.deletion.trace oracle false problem state) false →
      (∃ result, Method.deletion.outcome oracle false problem state = .ok result) →
      Unfailing (Method.deletion.trace oracle false problem state) →
      Method.deletion.spent oracle false problem state = (problem.soft.length + 1, 0)) ∧
    (Method.deletion.spent oracle false problem state).1 ≤ problem.soft.length + 1 ∧
    (Method.deletion.spent oracle false problem state).2 = 0 ∧
    ((∃ result, Method.growth.outcome oracle false problem state = .ok result) →
      Unfailing (Method.growth.trace oracle false problem state) →
      ¬ Answered (Method.growth.trace oracle false problem state) problem.hard false →
      Method.growth.spent oracle false problem state =
        (problem.soft.length + if problem.hard.isEmpty then 0 else 1, 0)) ∧
    (Method.growth.spent oracle false problem state).2 = 0 ∧
    ((∃ result, Method.indicators.outcome oracle false problem state = .ok result) →
      Method.indicators.spent oracle false problem state = (0, 1)) ∧
    Method.softTerms.spent oracle false problem state =
      (0, if oracle.supportsSoft state then 1 else 0) ∧
    ∀ (method : Method) (diagnosis : Diagnosis problem.soft),
      method.outcome oracle true problem state = .ok (.ok diagnosis) →
      method.spent oracle true problem state =
        method.spent oracle false problem state + (diagnosis.size + 1, 0) := by
  have hdeletion : cost (Method.deletion.trace oracle false problem state) =
      ((Method.deletion.trace oracle false problem state).length, 0) :=
    cost_transcript_of_asks (questionsSatisfy_isSolve.asks_minimalCore false)
  have hgrowth : cost (Method.growth.trace oracle false problem state) =
      ((Method.growth.trace oracle false problem state).length, 0) :=
    cost_transcript_of_asks (questionsSatisfy_isSolve.asks_correctionByGrowth false)
  simp only [Method.spent_eq_cost oracle _ false]
  refine ⟨cost_minimalCore_of_satisfiable hsoft, ?_, ?_, ?_, ?_, ?_, ?_,
    cost_correctionBySoftTerms hsoft, ?_⟩
  · rintro hopens ⟨result, hresult⟩ hunfailing
    exact cost_minimalCore_of_unsatisfiable hsoft (Dialogue.yields_of_run hresult) hopens
      hunfailing
  · rw [hdeletion]
    exact Dialogue.length_transcript_le (asksAtMost_minimalCore hsoft) _ _
  · rw [hdeletion]
  · rintro ⟨result, hresult⟩ hunfailing hhard
    exact cost_correctionByGrowth hsoft (Dialogue.yields_of_run hresult) hunfailing hhard
  · rw [hgrowth]
  · rintro ⟨result, hresult⟩
    exact cost_correctionByIndicators hsoft (Dialogue.yields_of_run hresult)
  · intro method diagnosis hdiagnosis
    rw [Method.spent_true hdiagnosis, Method.spent_eq_cost]

/-- Three soft constraints under a hard one: if the first answer ends it, deletion takes one
verdict, otherwise four, and growth takes four as well. The core that is found has two elements, so
that it takes three more to verify it. -/
theorem diagnose_cost_of_script :
    let problem : Problem Nat := { soft := [10, 20, 30], hard := [1] }
    let script : List Bool → Script.State := fun verdicts =>
      { verdicts := verdicts.map .ok
        otherwise := .ok true
        optima := [.ok (some [true, false, true])] }
    let shrinking := script [false, true, false, true, false]
    let growing := script [true, true, false, true]
    (Method.deletion.spent Script.oracle false problem growing = (1, 0) ∧
      Method.growth.spent Script.oracle false problem growing = (4, 0) ∧
      Method.indicators.spent Script.oracle false problem growing = (0, 1) ∧
      Method.softTerms.spent Script.oracle false problem growing = (0, 1)) ∧
    Method.deletion.spent Script.oracle false problem shrinking = (4, 0) ∧
    Method.deletion.spent Script.oracle true problem shrinking = (4, 0) + (3, 0) := by
  intro problem script shrinking growing
  obtain ⟨hsatisfiable, -, -, -, hgrowth, -, hindicators, hsoftTerms, -⟩ :=
    diagnose_cost Script.oracle problem (by decide) growing
  obtain ⟨-, hunsatisfiable, -, -, -, -, -, -, hverified⟩ :=
    diagnose_cost Script.oracle problem (by decide) shrinking
  have hfour : Method.deletion.spent Script.oracle false problem shrinking = (4, 0) := by
    refine hunsatisfiable ⟨[1, 10, 20, 30], _, _, rfl, .unsatisfiable, rfl, rfl⟩ ⟨_, rfl⟩ ?_
    unfold Unfailing
    decide +kernel
  have hcore : Method.deletion.outcome Script.oracle true problem shrinking =
      .ok (.ok ⟨[0, 2], by decide, by decide⟩) := by
    decide +kernel
  refine ⟨⟨?_, ?_, ?_, hsoftTerms⟩, hfour, ?_⟩
  · exact hsatisfiable ⟨[1, 10, 20, 30], _, _, rfl, .satisfiable (), rfl, rfl⟩
  · refine hgrowth ⟨_, rfl⟩ ?_ ?_
    · unfold Unfailing
      decide +kernel
    · rintro ⟨outcome, hunsat, hmem⟩
      have htrace : Method.growth.trace Script.oracle false problem growing =
          [⟨.solve [1], .ok (.ok (.satisfiable ()))⟩,
            ⟨.solve [1, 10], .ok (.ok (.satisfiable ()))⟩,
            ⟨.solve [1, 10, 20], .ok (.ok .unsatisfiable)⟩,
            ⟨.solve [1, 10, 30], .ok (.ok (.satisfiable ()))⟩] := rfl
      rw [htrace] at hmem
      obtain rfl : outcome = .satisfiable () := by simpa [problem] using hmem
      cases hunsat
  · exact hindicators ⟨_, rfl⟩
  · rw [hverified .deletion _ hcore, hfour]
    rfl

end Infeasibility
