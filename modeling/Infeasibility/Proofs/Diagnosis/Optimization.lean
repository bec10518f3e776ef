import Infeasibility.Proofs.Diagnosis.Protocol

/-! # Conclusions from an optimum

With any oracle both methods that look for a smallest correction draw their conclusion from a
single question for an optimum, in the state that the question leaves behind. -/

namespace Infeasibility.Problem

variable {σ C A ι : Type} {oracle : Oracle σ C A ι} {problem : Problem C} {verify : Bool}
  {state : σ}

/-! ## What is asked -/

section

variable {P : Question C ι → Prop}

/-- Indicators are asked for, linked, maximized and released, and nothing else is asked. There is
one of them for each soft constraint. -/
theorem asks_maximizeIndicators (hnew : P .newIndicator)
    (hlink : ∀ indicator constraint, P (.implication indicator constraint))
    (hmaximize : ∀ hard soft, soft.length = problem.soft.length → P (.maximize hard soft))
    (hrelease : ∀ indicators, P (.release indicators)) :
    (problem.maximizeIndicators : Inquiry C A ι OracleError (Optimum A)).run.Asks P := by
  refine Inquiry.asks_bind (Inquiry.asks_mapM fun _ _ => ?_) fun _ indicators hindicators => ?_
  · exact Inquiry.asks_lift ⟨hnew, fun _ => trivial⟩
  refine Inquiry.asks_bind (Inquiry.asks_mapM fun _ _ => ?_) fun _ links _ => ?_
  · exact Inquiry.asks_lift ⟨hlink _ _, fun _ => trivial⟩
  have hterms : (indicators.map (SoftTerm.indicator (C := C))).length = problem.soft.length := by
    rw [List.length_map, Inquiry.length_of_yields_mapM hindicators]
  refine Inquiry.asks_bind (Inquiry.asks_lift ⟨hmaximize _ _ hterms, fun _ => trivial⟩)
    fun _ _ _ => ?_
  refine Inquiry.asks_bind (Inquiry.asks_lift ⟨hrelease _, fun _ => trivial⟩) fun _ _ _ => ?_
  exact Dialogue.asks_done P _

theorem QuestionsSatisfy.asks_correctionByIndicators (hP : problem.QuestionsSatisfy P)
    (verify : Bool) (hnew : P .newIndicator)
    (hlink : ∀ indicator constraint, P (.implication indicator constraint))
    (hmaximize : ∀ hard soft, soft.length = problem.soft.length → P (.maximize hard soft))
    (hrelease : ∀ indicators, P (.release indicators)) :
    (problem.correctionByIndicators verify :
      Inquiry C A ι DiagnosisError (Diagnosis problem.soft)).run.Asks P := by
  rw [correctionByIndicators]
  refine Inquiry.asks_bind asks_requireSoft fun _ _ _ => ?_
  refine Inquiry.asks_bind (Inquiry.asks_orUnavailable
    (asks_maximizeIndicators hnew hlink hmaximize hrelease)) fun _ optimum _ => ?_
  exact hP.asks_correctionOfOptimum verify "indicators" optimum

theorem QuestionsSatisfy.asks_correctionBySoftTerms (hP : problem.QuestionsSatisfy P)
    (verify : Bool) (hsupports : P .supportsSoft)
    (hmaximize : ∀ hard soft, soft.length = problem.soft.length → P (.maximize hard soft)) :
    (problem.correctionBySoftTerms verify :
      Inquiry C A ι DiagnosisError (Diagnosis problem.soft)).run.Asks P := by
  rw [correctionBySoftTerms]
  refine Inquiry.asks_bind asks_requireSoft fun _ _ _ => ?_
  refine Inquiry.asks_bind ?_ fun _ _ _ => ?_
  · refine Inquiry.asks_bind (Inquiry.asks_lift ⟨hsupports, fun _ => trivial⟩)
      fun _ supported _ => ?_
    cases supported <;> exact Dialogue.asks_done P _
  have hasked : (Inquiry.maximize problem.hard (problem.soft.map .constraint) :
      Inquiry C A ι OracleError (Optimum A)).run.Asks P :=
    ⟨hmaximize _ _ (List.length_map _), fun _ => trivial⟩
  refine Inquiry.asks_bind (Inquiry.asks_orUnavailable hasked) fun _ optimum _ => ?_
  exact hP.asks_correctionOfOptimum verify "soft constraints" optimum

end

/-! ## What is concluded -/

/-- The optima have the same truth values, if there are any. -/
inductive SameTruths : Optimum A → Optimum A → Prop where
  | unsatisfiable : SameTruths .unsatisfiable .unsatisfiable
  | optimal {satisfied : List Bool} {first second : A} :
      SameTruths (.optimal satisfied first) (.optimal satisfied second)

/-- Only the truth values of an optimum matter, if each soft constraint has one. -/
theorem correctionOfOptimum_congr {first second : Optimum A} (h : SameTruths first second)
    (hlength : ∀ satisfied assignment, first = .optimal satisfied assignment →
      satisfied.length = problem.soft.length) (verify : Bool) (terms terms' : String) :
    (problem.correctionOfOptimum verify terms first :
      Inquiry C A ι DiagnosisError (Diagnosis problem.soft)) =
      problem.correctionOfOptimum verify terms' second := by
  cases h with
  | unsatisfiable => rfl
  | optimal =>
      have hsame := hlength _ _ rfl
      rw [correctionOfOptimum, correctionOfOptimum, if_pos hsame, if_pos hsame]

/-- What a method concludes from what has come of its question. -/
def afterOptimum (oracle : Oracle σ C A ι) (problem : Problem C) (verify : Bool)
    (terms : String) : Except Misuse (Except OracleError (Optimum A)) × σ →
      Except Misuse (Except DiagnosisError (Diagnosis problem.soft))
  | (.ok (.ok optimum), state) =>
    (problem.correctionOfOptimum verify terms optimum).result oracle state
  | (.ok (.error cause), _) => .ok (.error (.unavailable cause))
  | (.error misuse, _) => .error misuse

/-- The answer to a question for an optimum is what the inquiry concludes from it. -/
theorem result_optimum_bind {x : Inquiry C A ι OracleError (Optimum A)} {terms : String} :
    (x.orUnavailable >>= problem.correctionOfOptimum verify terms).result oracle state =
      problem.afterOptimum oracle verify terms (x.run.run oracle state) := by
  have hrun := Inquiry.run_orUnavailable_apply oracle x state
  rcases hx : x.run.run oracle state with ⟨misuse | cause | optimum, state'⟩ <;> rw [hx] at hrun
  · exact Inquiry.result_bind_of_misuse hrun
  · exact Inquiry.result_bind_of_error hrun
  · exact Inquiry.result_bind_of_ok hrun

/-- The indicators are made, then linked, then maximized, then released. -/
theorem run_maximizeIndicators {indicators : List ι} {links : List C} {made linked asked final : σ}
    {answer : Except OracleError (Optimum A)}
    (hmade : (problem.soft.mapM fun _ => (ExceptT.lift Dialogue.newIndicator :
      Inquiry C A ι OracleError ι)).run.run oracle state = (.ok (.ok indicators), made))
    (hlinked : ((indicators.zip problem.soft).mapM fun (indicator, constraint) =>
      (ExceptT.lift (Dialogue.implication indicator constraint) :
        Inquiry C A ι OracleError C)).run.run oracle made = (.ok (.ok links), linked))
    (hasked : oracle.maximize (problem.hard ++ links) (indicators.map .indicator) linked =
      (.ok answer, asked))
    (hreleased : oracle.release indicators asked = (.ok (), final)) :
    problem.maximizeIndicators.run.run oracle state = (.ok answer, final) := by
  have hmaximize : (Dialogue.maximize (problem.hard ++ links) (indicators.map .indicator) :
      Dialogue C A ι _).run oracle linked = (.ok answer, asked) :=
    Dialogue.run_ask_of_ok hasked
  have hrelease : (Dialogue.release indicators : Dialogue C A ι Unit).run oracle asked =
      (.ok (), final) :=
    Dialogue.run_ask_of_ok hreleased
  rw [maximizeIndicators, Inquiry.run_bind_of_ok hmade, Inquiry.run_bind_of_ok hlinked,
    Inquiry.run_bind_of_ok (Inquiry.run_lift_of_ok hmaximize),
    Inquiry.run_bind_of_ok (Inquiry.run_lift_of_ok hrelease)]
  rfl

theorem result_correctionByIndicators (hsoft : problem.soft ≠ []) :
    (problem.correctionByIndicators verify).result oracle state =
      problem.afterOptimum oracle verify "indicators"
        (problem.maximizeIndicators.run.run oracle state) := by
  rw [correctionByIndicators, requireSoft_of_ne_nil hsoft, pure_bind]
  exact result_optimum_bind

/-- What is concluded from an optimum is concluded in the state that the maximization leaves. -/
theorem run_correctionByIndicators (hsoft : problem.soft ≠ []) :
    (problem.correctionByIndicators verify).run.run oracle state =
      match problem.maximizeIndicators.run.run oracle state with
      | (.ok (.ok optimum), final) =>
        (problem.correctionOfOptimum verify "indicators" optimum).run.run oracle final
      | (.ok (.error cause), final) => (.ok (.error (.unavailable cause)), final)
      | (.error misuse, final) => (.error misuse, final) := by
  rw [correctionByIndicators, requireSoft_of_ne_nil hsoft, pure_bind, Inquiry.run_bind_apply,
    Inquiry.run_orUnavailable_apply]
  rcases problem.maximizeIndicators.run.run oracle state with ⟨misuse | cause | optimum, final⟩ <;>
    rfl

theorem run_requireSoftTerms (oracle : Oracle σ C A ι) (state : σ) :
    (requireSoftTerms : Inquiry C A ι DiagnosisError Unit).run.run oracle state =
      (.ok (if oracle.supportsSoft state then .ok () else .error .softTermsUnsupported),
        state) := by
  have hanswer : oracle.answer .supportsSoft state = (.ok (oracle.supportsSoft state), state) :=
    rfl
  rw [requireSoftTerms,
    Inquiry.run_bind_of_ok (Inquiry.run_lift_of_ok (Dialogue.run_ask_of_ok hanswer))]
  cases oracle.supportsSoft state <;> rfl

theorem result_correctionBySoftTerms (hsoft : problem.soft ≠ [])
    (hsupported : oracle.supportsSoft state = true) :
    (problem.correctionBySoftTerms verify).result oracle state =
      problem.afterOptimum oracle verify "soft constraints"
        (oracle.maximize problem.hard (problem.soft.map .constraint) state) := by
  have hrequired := run_requireSoftTerms oracle state
  rw [hsupported, if_pos rfl] at hrequired
  have hmaximize : (Inquiry.maximize problem.hard (problem.soft.map .constraint) :
      Inquiry C A ι OracleError (Optimum A)).run.run oracle state =
      oracle.maximize problem.hard (problem.soft.map .constraint) state := by
    rcases hanswer : oracle.answer (.maximize problem.hard (problem.soft.map .constraint)) state
      with ⟨misuse | optimum, state'⟩
    · exact (Dialogue.run_ask_of_error hanswer).trans hanswer.symm
    · exact (Dialogue.run_ask_of_ok hanswer).trans hanswer.symm
  rw [correctionBySoftTerms, requireSoft_of_ne_nil hsoft, pure_bind,
    Inquiry.result_bind_of_ok hrequired, result_optimum_bind, hmaximize]

theorem result_correctionBySoftTerms_of_not (hsoft : problem.soft ≠ [])
    (hsupported : oracle.supportsSoft state = false) :
    (problem.correctionBySoftTerms verify).result oracle state =
      .ok (.error .softTermsUnsupported) := by
  have hrequired := run_requireSoftTerms oracle state
  rw [hsupported] at hrequired
  rw [correctionBySoftTerms, requireSoft_of_ne_nil hsoft, pure_bind]
  exact Inquiry.result_bind_of_error hrequired

end Infeasibility.Problem
