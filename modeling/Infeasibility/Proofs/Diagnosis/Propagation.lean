import Infeasibility.Diagnosis.Method
import Infeasibility.Oracle.Script
import Infeasibility.Proofs.Diagnosis.Safety

/-! # Failures end a method

Each method ends with the first call that fails, whose error it passes on unchanged. Where no call
failed, it blames the oracle only for a contradiction: an optimum that does not speak of each soft
constraint, or a verification that denies what was found. -/

namespace Infeasibility

variable {σ C A ι : Type}

/-! ## Contradictions -/

/-- What a method calls the terms that it maximizes. -/
def Method.terms? : Method → Option String
  | deletion | growth => none
  | indicators => some "indicators"
  | softTerms => some "soft constraints"

namespace Problem

/-- The inconsistencies that a method may find after the exchanges. -/
inductive Contradicted (problem : Problem C) (method : Method) (verify : Bool)
    (exchanges : List (Exchange C A ι)) : OracleError → Prop where
  | count {terms : String} {hard : List C} {soft : List (SoftTerm C ι)} {satisfied : List Bool}
      {assignment : A} : method.terms? = some terms →
      ⟨.maximize hard soft, .ok (.ok (.optimal satisfied assignment))⟩ ∈ exchanges →
      satisfied.length ≠ problem.soft.length →
      Contradicted problem method verify exchanges (.inconsistent
        s!"{satisfied.length} values for {problem.soft.length} {terms}")
  | verification {diagnosis : Diagnosis problem.soft} {check : List (Exchange C A ι)} :
      verify = true → check <:+ exchanges →
      (problem.isMinimal method.kind diagnosis).run.Yields check (.ok false) →
      Contradicted problem method verify exchanges (.inconsistent
        (Listing.inline (diagnosis.positions.map toString) ++ " is not a " ++
          method.kind.abbreviation))

variable {problem : Problem C} {verify : Bool} {kind : Kind}

/-! ## Errors of the oracle only -/

theorem isTransparent_isMinimal {source : List C} (problem : Problem C) (kind : Kind)
    (diagnosis : Diagnosis source) :
    (problem.isMinimal kind diagnosis : Inquiry C A ι OracleError Bool).IsTransparent := by
  cases kind with
  | core =>
      refine (problem.isTransparent_ask _).bind fun _ outcome _ => ?_
      split
      · exact Inquiry.passesOn_pure false
      · refine Inquiry.isTransparent_allM fun removed _ => ?_
        exact (problem.isTransparent_ask _).bind fun _ _ _ => Inquiry.passesOn_pure _
  | correction =>
      refine (problem.isTransparent_ask _).bind fun _ outcome _ => ?_
      split
      · exact Inquiry.passesOn_pure false
      · refine Inquiry.isTransparent_allM fun restored _ => ?_
        exact (problem.isTransparent_ask _).bind fun _ _ _ => Inquiry.passesOn_pure _

/-- The indicators are released whether or not there is an optimum. -/
theorem yields_maximize_release {hard : List C} {soft : List (SoftTerm C ι)}
    {indicators : List ι} {exchanges : List (Exchange C A ι)}
    {result : Except OracleError (Optimum A)}
    (h : (ExceptT.lift (Dialogue.maximize hard soft) >>= fun result =>
      ExceptT.lift (Dialogue.release indicators) >>= fun _ => ExceptT.mk (pure result) :
        Inquiry C A ι OracleError (Optimum A)).run.Yields exchanges result) :
    exchanges = [⟨.maximize hard soft, .ok result⟩, ⟨.release indicators, .ok ()⟩] := by
  rw [ExceptT.run_bind_lift] at h
  obtain ⟨_, _, _, rfl, hmaximize, hrest⟩ := Dialogue.yields_bind_iff.mp h
  rw [ExceptT.run_bind_lift] at hrest
  obtain ⟨_, _, _, rfl, hrelease, hlast⟩ := Dialogue.yields_bind_iff.mp hrest
  obtain rfl := Dialogue.Yields.single hmaximize
  obtain rfl := Dialogue.Yields.single hrelease
  obtain ⟨rfl, rfl⟩ := Dialogue.yields_done_iff.mp hlast
  rfl

theorem isTransparent_maximizeIndicators (problem : Problem C) :
    (problem.maximizeIndicators : Inquiry C A ι OracleError (Optimum A)).IsTransparent := by
  rw [maximizeIndicators]
  refine Inquiry.PassesOn.bind (Inquiry.passesOn_mapM fun _ _ _ => ?_) fun _ indicators _ => ?_
  · exact Inquiry.passesOn_lift ⟨rfl, fun _ => trivial⟩
  refine Inquiry.PassesOn.bind (Inquiry.passesOn_mapM fun _ _ _ => ?_) fun _ links _ => ?_
  · exact Inquiry.passesOn_lift ⟨rfl, fun _ => trivial⟩
  intro exchanges result h
  rw [yields_maximize_release h]
  exact Inquiry.ends_of_calls rfl rfl

theorem mem_of_yields_maximizeIndicators {exchanges : List (Exchange C A ι)} {optimum : Optimum A}
    (h : problem.maximizeIndicators.run.Yields exchanges (.ok optimum)) :
    ∃ hard soft, ⟨.maximize hard soft, .ok (.ok optimum)⟩ ∈ exchanges := by
  obtain ⟨made, _, indicators, rfl, -, h⟩ := Inquiry.yields_bind_ok_iff.mp h
  obtain ⟨linked, _, links, rfl, -, h⟩ := Inquiry.yields_bind_ok_iff.mp h
  rw [yields_maximize_release h]
  exact ⟨problem.hard ++ links, indicators.map .indicator, by simp⟩

/-! ## Errors of a method -/

/-- If the method gives no diagnosis for want of an answer, the exchanges contradict themselves. -/
def Blames (problem : Problem C) (method : Method) (verify : Bool)
    (exchanges : List (Exchange C A ι)) (error : DiagnosisError) : Prop :=
  ∀ cause, error = .unavailable cause → problem.Contradicted method verify exchanges cause

/-- The error says that a verification has denied what was found. -/
def Refutes (problem : Problem C) (kind : Kind) (verify : Bool)
    (exchanges : List (Exchange C A ι)) (error : DiagnosisError) : Prop :=
  ∃ diagnosis : Diagnosis problem.soft, verify = true ∧
    (problem.isMinimal kind diagnosis).run.Yields exchanges (.ok false) ∧
    error = .unavailable (.inconsistent
      (Listing.inline (diagnosis.positions.map toString) ++ " is not a " ++ kind.abbreviation))

theorem blames_invalidInput {method : Method} {exchanges : List (Exchange C A ι)}
    {reason : InvalidInput} : problem.Blames method verify exchanges (.invalidInput reason) := by
  intro cause hcause
  cases hcause

/-- A contradiction is not a failure. -/
theorem Blames.ne_failure {method : Method} {exchanges : List (Exchange C A ι)}
    {error : DiagnosisError} (h : problem.Blames method verify exchanges error) (cause : String) :
    error ≠ .unavailable (.failure cause) := by
  rintro rfl
  cases h _ rfl

theorem Blames.append_left {method : Method} {first second : List (Exchange C A ι)}
    {error : DiagnosisError} (h : problem.Blames method verify second error) :
    problem.Blames method verify (first ++ second) error := by
  intro cause hcause
  cases h cause hcause with
  | count hterms hmem hlength => exact .count hterms (List.mem_append_right first hmem) hlength
  | verification hverify hcheck hyields =>
      exact .verification hverify (hcheck.trans (List.suffix_append first second)) hyields

theorem Refutes.blames {method : Method} {exchanges : List (Exchange C A ι)}
    {error : DiagnosisError} (hkind : method.kind = kind)
    (h : problem.Refutes kind verify exchanges error) :
    problem.Blames method verify exchanges error := by
  subst hkind
  rintro cause rfl
  obtain ⟨diagnosis, hverify, hyields, herror⟩ := h
  cases herror
  exact .verification hverify (List.suffix_refl exchanges) hyields

theorem passesOn_conclude (problem : Problem C) (verify : Bool) (kind : Kind)
    (positions : List Nat) :
    (problem.conclude verify kind positions :
      Inquiry C A ι DiagnosisError (Diagnosis problem.soft)).PassesOn .unavailable
        (problem.Refutes kind verify) := by
  rw [conclude]
  split
  · exact Inquiry.passesOn_abandon _
  rename_i diagnosis hdiagnosis
  have hpositions := positions_of_ofPositions? hdiagnosis
  cases verify with
  | false => exact Inquiry.passesOn_pure diagnosis
  | true =>
      refine (problem.isTransparent_isMinimal kind diagnosis).orUnavailable.bind
        fun asked minimal hminimal => ?_
      cases minimal with
      | true => exact Inquiry.passesOn_pure diagnosis
      | false =>
          refine Inquiry.passesOn_throw ⟨diagnosis, rfl, ?_, by rw [hpositions]⟩
          rw [List.append_nil]
          exact Inquiry.yields_orUnavailable_ok_iff.mp hminimal

theorem passesOn_reject (problem : Problem C) (verify : Bool) (rejected : List Nat) :
    (problem.reject verify rejected :
      Inquiry C A ι DiagnosisError (Diagnosis problem.soft)).PassesOn .unavailable
        fun exchanges error => error = .invalidInput .satisfiable ∨
          problem.Refutes .correction verify exchanges error := by
  rw [reject]
  split
  · exact Inquiry.passesOn_throw (.inl rfl)
  · exact (problem.passesOn_conclude verify .correction rejected).imp fun _ _ h => .inr h

/-- A correction of an optimum blames the oracle for the optimum or for the verification. -/
theorem passesOn_correctionOfOptimum (problem : Problem C) (verify : Bool) {method : Method}
    {terms : String} (hkind : method.kind = .correction) (hterms : method.terms? = some terms)
    {asked : List (Exchange C A ι)} {optimum : Optimum A}
    (hasked : ∃ hard soft, ⟨.maximize hard soft, .ok (.ok optimum)⟩ ∈ asked) :
    (problem.correctionOfOptimum verify terms optimum :
      Inquiry C A ι DiagnosisError (Diagnosis problem.soft)).PassesOn .unavailable
        fun exchanges error => problem.Blames method verify (asked ++ exchanges) error := by
  obtain ⟨hard, soft, hmem⟩ := hasked
  cases optimum with
  | unsatisfiable => exact Inquiry.passesOn_throw blames_invalidInput
  | optimal satisfied assignment =>
      rw [correctionOfOptimum]
      split
      · refine (problem.passesOn_reject verify _).imp fun exchanges error herror => ?_
        rcases herror with rfl | hrefutes
        · exact blames_invalidInput
        · exact (hrefutes.blames hkind).append_left
      · rename_i hlength
        refine Inquiry.passesOn_throw ?_
        rintro _ ⟨⟩
        exact .count hterms (by simpa using hmem) hlength

theorem passesOn_optimum_bind (method : Method) {terms : String}
    {x : Inquiry C A ι OracleError (Optimum A)} (hx : x.IsTransparent)
    (hasked : ∀ exchanges optimum, x.run.Yields exchanges (.ok optimum) →
      ∃ hard soft, ⟨.maximize hard soft, .ok (.ok optimum)⟩ ∈ exchanges)
    (hkind : method.kind = .correction) (hterms : method.terms? = some terms) :
    (x.orUnavailable >>= problem.correctionOfOptimum verify terms).PassesOn .unavailable
      (problem.Blames method verify) := by
  refine hx.orUnavailable.bind fun asked optimum hyields => ?_
  exact problem.passesOn_correctionOfOptimum verify hkind hterms
    (hasked asked optimum (Inquiry.yields_orUnavailable_ok_iff.mp hyields))

/-! ## Methods -/

theorem passesOn_requireSoft {method : Method} :
    (problem.requireSoft : Inquiry C A ι DiagnosisError Unit).PassesOn .unavailable
      (problem.Blames method verify) := by
  rw [requireSoft]
  split
  · exact Inquiry.passesOn_throw blames_invalidInput
  · exact Inquiry.passesOn_pure ()

theorem passesOn_minimalCore (problem : Problem C) (verify : Bool) :
    (problem.minimalCore verify :
      Inquiry C A ι DiagnosisError (Diagnosis problem.soft)).PassesOn .unavailable
        (problem.Blames .deletion verify) := by
  rw [minimalCore]
  refine passesOn_requireSoft.bind fun _ _ _ => ?_
  refine (problem.isTransparent_ask _).orUnavailable.bind fun _ outcome _ => ?_
  split
  · exact Inquiry.passesOn_throw blames_invalidInput
  refine (problem.isTransparent_shrink _ _).orUnavailable.bind fun _ core _ => ?_
  split
  · exact Inquiry.passesOn_throw blames_invalidInput
  refine (problem.passesOn_conclude verify .core core).imp fun _ _ hrefutes => ?_
  exact (hrefutes.blames rfl).append_left.append_left.append_left

theorem passesOn_correctionByGrowth (problem : Problem C) (verify : Bool) :
    (problem.correctionByGrowth verify :
      Inquiry C A ι DiagnosisError (Diagnosis problem.soft)).PassesOn .unavailable
        (problem.Blames .growth verify) := by
  rw [correctionByGrowth]
  refine passesOn_requireSoft.bind fun _ _ _ => ?_
  refine Inquiry.PassesOn.bind ?_ fun _ _ _ => ?_
  · rw [requireHard]
    split
    · exact Inquiry.passesOn_pure ()
    refine (problem.isTransparent_ask _).orUnavailable.bind fun _ outcome _ => ?_
    split
    · exact Inquiry.passesOn_throw blames_invalidInput
    · exact Inquiry.passesOn_pure ()
  refine (problem.isTransparent_grow _ _ _).orUnavailable.bind fun _ rejected _ => ?_
  refine (problem.passesOn_reject verify rejected).imp fun _ _ herror => ?_
  rcases herror with rfl | hrefutes
  · exact blames_invalidInput
  · exact (hrefutes.blames rfl).append_left.append_left.append_left

theorem passesOn_correctionByIndicators (problem : Problem C) (verify : Bool) :
    (problem.correctionByIndicators verify :
      Inquiry C A ι DiagnosisError (Diagnosis problem.soft)).PassesOn .unavailable
        (problem.Blames .indicators verify) := by
  rw [correctionByIndicators]
  refine passesOn_requireSoft.bind fun _ _ _ => ?_
  refine (passesOn_optimum_bind .indicators problem.isTransparent_maximizeIndicators
    (fun _ _ h => mem_of_yields_maximizeIndicators h) rfl rfl).imp fun _ _ h => ?_
  exact h.append_left

theorem passesOn_correctionBySoftTerms (problem : Problem C) (verify : Bool) :
    (problem.correctionBySoftTerms verify :
      Inquiry C A ι DiagnosisError (Diagnosis problem.soft)).PassesOn .unavailable
        (problem.Blames .softTerms verify) := by
  rw [correctionBySoftTerms]
  refine passesOn_requireSoft.bind fun _ _ _ => ?_
  refine Inquiry.PassesOn.bind ?_ fun _ _ _ => ?_
  · rw [requireSoftTerms]
    refine Inquiry.PassesOn.bind (Inquiry.passesOn_lift ⟨rfl, fun _ => trivial⟩)
      fun _ supported _ => ?_
    split
    · exact Inquiry.passesOn_pure ()
    · refine Inquiry.passesOn_throw ?_
      intro cause hcause
      cases hcause
  refine (passesOn_optimum_bind .softTerms (Inquiry.isTransparent_maximize _ _) ?_ rfl rfl).imp
    fun _ _ h => h.append_left.append_left
  intro exchanges optimum h
  exact ⟨_, _, by rw [Dialogue.Yields.single h]; exact List.mem_singleton_self _⟩

theorem passesOn_diagnose (problem : Problem C) (method : Method) (verify : Bool) :
    (method.diagnose verify problem :
      Inquiry C A ι DiagnosisError (Diagnosis problem.soft)).PassesOn .unavailable
        (problem.Blames method verify) := by
  cases method with
  | deletion => exact problem.passesOn_minimalCore verify
  | growth => exact problem.passesOn_correctionByGrowth verify
  | indicators => exact problem.passesOn_correctionByIndicators verify
  | softTerms => exact problem.passesOn_correctionBySoftTerms verify

end Problem

/-- A call that fails is the last one of a run, and its error becomes the result unless the oracle
gives up for a misuse. Conversely, an error of the oracle is that of the last call, or the oracle
has contradicted itself: its optimum does not speak of each soft constraint, or it denies what was
found. -/
theorem diagnose_passes_failures_on (oracle : Oracle σ C A ι) (problem : Problem C)
    (method : Method) (verify : Bool) (state : σ) :
    let inquiry := method.diagnose verify problem
    let exchanges := inquiry.run.transcript oracle state
    ((∀ exchange ∈ exchanges, ∃ answer, exchange.answer = .ok answer) →
      ∀ before call after error, calls exchanges = before ++ call :: after →
        call.failure? = some error →
          after = [] ∧ inquiry.result oracle state = .ok (.error (.unavailable error))) ∧
    ∀ error, inquiry.result oracle state = .ok (.error (.unavailable error)) →
      (∃ call, (calls exchanges).getLast? = some call ∧ call.failure? = some error) ∨
        problem.Contradicted method verify exchanges error := by
  intro inquiry exchanges
  have hends : ∀ result, inquiry.result oracle state = .ok result →
      Inquiry.Ends .unavailable (problem.Blames method verify) exchanges result :=
    fun result hresult => problem.passesOn_diagnose method verify exchanges result
      (Dialogue.yields_of_run hresult)
  constructor
  · intro hanswered before call after error hcalls hcall
    have hasks : inquiry.run.Asks fun _ => True :=
      Problem.QuestionsSatisfy.asks_diagnose (fun _ _ _ => trivial) (fun _ _ => trivial) method
        verify
    obtain ⟨result, _, hrun⟩ := Dialogue.exists_run_eq_ok_of_transcript hasks hanswered
    have hresult : inquiry.result oracle state = .ok result := congrArg Prod.fst hrun
    have hunfailing : ¬ Unfailing exchanges := by
      intro hunfailing
      have hnone := hunfailing call (by simp [hcalls])
      rw [hcall] at hnone
      exact nomatch hnone
    rw [hresult]
    cases hends result hresult with
    | failed hfailed =>
        obtain ⟨hlast, rfl⟩ := hfailed.last hcalls hcall
        exact ⟨hlast, rfl⟩
    | own h => exact absurd h hunfailing
    | value h => exact absurd h hunfailing
  · intro error herror
    generalize hresult : Except.error (DiagnosisError.unavailable error) = result at herror
    cases hends result herror with
    | failed hfailed =>
        cases hresult
        exact .inl hfailed.getLast?
    | own _ hblames =>
        cases hresult
        exact .inr (hblames error rfl)
    | value _ => exact nomatch hresult

/-- An oracle that runs out of time when the core has been found and is being verified. -/
theorem diagnose_passes_failures_on_of_timeout :
    let problem : Problem Nat := { soft := [10, 20, 30], hard := [1] }
    let state : Script.State :=
      { verdicts := [.ok false, .ok true, .ok false, .ok true, .ok false]
        otherwise := .error .timeout
        optima := [] }
    let inquiry := Method.deletion.diagnose true problem
    let exchanges := inquiry.run.transcript Script.oracle state
    (∀ exchange ∈ exchanges, ∃ answer, exchange.answer = .ok answer) ∧
    ((calls exchanges)[5]? = some ⟨.solve [1, 30], .ok (.error .timeout)⟩ ∧
      (calls exchanges).length = 6 ∧
      inquiry.result Script.oracle state = .ok (.error (.unavailable .timeout))) ∧
    ∃ call, (calls exchanges).getLast? = some call ∧ call.failure? = some .timeout := by
  intro problem state inquiry exchanges
  have hanswered := Dialogue.answered_of_mem_transcript Script.exists_answer inquiry.run state
  obtain ⟨hforward, hback⟩ :=
    diagnose_passes_failures_on Script.oracle problem .deletion true state
  have hsplit : calls exchanges = (calls exchanges).take 5 ++
      ⟨.solve [1, 30], .ok (.error .timeout)⟩ :: [] := rfl
  obtain ⟨-, hresult⟩ := hforward hanswered _ _ _ .timeout hsplit rfl
  refine ⟨hanswered, ⟨rfl, rfl, hresult⟩, ?_⟩
  rcases hback .timeout hresult with hlast | hcontradicted
  · exact hlast
  · cases hcontradicted

end Infeasibility
