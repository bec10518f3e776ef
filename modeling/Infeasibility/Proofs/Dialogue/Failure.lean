import Infeasibility.Proofs.Dialogue.Inquiry

/-! # Failures of an oracle

A call is a question for a verdict or for an optimum. An inquiry that passes failures on ends with
the first call that fails, whose error it makes its own; other errors it has only when no call
failed. -/

namespace Infeasibility

variable {C A ι ε α β : Type}

/-! ## Calls -/

/-- The question is for a verdict or for an optimum. -/
def Question.isCall : Question C ι → Bool
  | .solve _ | .maximize _ _ => true
  | .newIndicator | .implication _ _ | .release _ | .supportsSoft => false

/-- The exchanges in which the oracle was asked for a verdict or for an optimum. -/
def calls (exchanges : List (Exchange C A ι)) : List (Exchange C A ι) :=
  exchanges.filter fun exchange => exchange.question.isCall

def error? : Except ε α → Option ε
  | .error error => some error
  | .ok _ => none

theorem error?_eq_some_iff {x : Except ε α} {error : ε} :
    error? x = some error ↔ x = .error error := by
  cases x <;> simp [error?]

/-- Why the oracle did not answer a call. -/
def Exchange.failure? : Exchange C A ι → Option OracleError
  | ⟨.solve _, .ok answer⟩ => error? answer
  | ⟨.maximize _ _, .ok answer⟩ => error? answer
  | _ => none

def Unfailing (exchanges : List (Exchange C A ι)) : Prop :=
  ∀ call ∈ calls exchanges, call.failure? = none

/-- The last call failed, and none before it. -/
def FailedLast (exchanges : List (Exchange C A ι)) (error : OracleError) : Prop :=
  ∃ before call, calls exchanges = before ++ [call] ∧
    (∀ earlier ∈ before, earlier.failure? = none) ∧ call.failure? = some error

@[simp] theorem calls_append (first second : List (Exchange C A ι)) :
    calls (first ++ second) = calls first ++ calls second :=
  List.filter_append first second

variable {first second exchanges : List (Exchange C A ι)} {error : OracleError}

/-- Only calls fail. -/
theorem mem_calls_of_failure? {call : Exchange C A ι} (hmem : call ∈ exchanges)
    (hcall : call.failure? = some error) : call ∈ calls exchanges := by
  refine List.mem_filter.mpr ⟨hmem, ?_⟩
  obtain ⟨question, answer⟩ := call
  cases question with
  | solve constraints => rfl
  | maximize hard soft => rfl
  | newIndicator => cases hcall
  | implication indicator constraint => cases hcall
  | release indicators => cases hcall
  | supportsSoft => cases hcall

theorem unfailing_of_calls_eq_nil (h : calls exchanges = []) : Unfailing exchanges := by
  intro call hcall
  rw [h] at hcall
  exact absurd hcall List.not_mem_nil

theorem unfailing_append_iff :
    Unfailing (first ++ second) ↔ Unfailing first ∧ Unfailing second := by
  simp [Unfailing, or_imp, forall_and]

theorem FailedLast.append_left (hfirst : Unfailing first) (hsecond : FailedLast second error) :
    FailedLast (first ++ second) error := by
  obtain ⟨before, call, hcalls, hbefore, hcall⟩ := hsecond
  refine ⟨calls first ++ before, call, by simp [hcalls], ?_, hcall⟩
  exact List.forall_mem_append.mpr ⟨hfirst, hbefore⟩

/-- The call that failed is the last one. -/
theorem FailedLast.last (h : FailedLast exchanges error) {before after : List (Exchange C A ι)}
    {call : Exchange C A ι} {cause : OracleError}
    (hcalls : calls exchanges = before ++ call :: after) (hcall : call.failure? = some cause) :
    after = [] ∧ cause = error := by
  obtain ⟨earlier, last, hlast, hearlier, herror⟩ := h
  rw [hlast] at hcalls
  rcases List.eq_nil_or_concat after with rfl | ⟨front, final, rfl⟩
  · obtain ⟨-, hsame⟩ := List.append_inj' hcalls rfl
    cases hsame
    exact ⟨rfl, Option.some.inj (hcall.symm.trans herror)⟩
  · -- A call behind the failed one would have failed as well, or be the one that did.
    have hsplit : earlier ++ [last] = (before ++ call :: front) ++ [final] := by
      simpa using hcalls
    obtain ⟨hfront, -⟩ := List.append_inj' hsplit rfl
    have hnone := hearlier call (by simp [hfront])
    rw [hcall] at hnone
    cases hnone

theorem FailedLast.getLast? (h : FailedLast exchanges error) :
    ∃ call, (calls exchanges).getLast? = some call ∧ call.failure? = some error := by
  obtain ⟨before, call, hcalls, -, hcall⟩ := h
  exact ⟨call, by simp [hcalls], hcall⟩

theorem FailedLast.exists_mem (h : FailedLast exchanges error) :
    ∃ call ∈ exchanges, call.failure? = some error := by
  obtain ⟨call, hlast, hcall⟩ := h.getLast?
  have hmem : call ∈ calls exchanges := List.mem_of_getLast? hlast
  exact ⟨call, (List.mem_filter.mp hmem).1, hcall⟩

theorem FailedLast.not_unfailing (h : FailedLast exchanges error) : ¬ Unfailing exchanges := by
  obtain ⟨before, call, hcalls, -, hcall⟩ := h
  intro hunfailing
  have hnone := hunfailing call (by simp [hcalls])
  rw [hcall] at hnone
  cases hnone

theorem Failed.not_unfailing (h : Failed exchanges error) : ¬ Unfailing exchanges := by
  obtain ⟨constraints, hmem⟩ := h
  intro hunfailing
  cases hunfailing _ (List.mem_filter.mpr ⟨hmem, rfl⟩)

/-! ## Inquiries that pass failures on -/

namespace Inquiry

/-- How an inquiry ends that passes failures on. The errors of its own are those that `Own` allows
after the exchanges. -/
inductive Ends (wrap : OracleError → ε) (Own : List (Exchange C A ι) → ε → Prop)
    (exchanges : List (Exchange C A ι)) : Except ε α → Prop where
  | failed {error : OracleError} :
      FailedLast exchanges error → Ends wrap Own exchanges (.error (wrap error))
  | own {error : ε} :
      Unfailing exchanges → Own exchanges error → Ends wrap Own exchanges (.error error)
  | value {value : α} : Unfailing exchanges → Ends wrap Own exchanges (.ok value)

/-- Whatever the answers are, the inquiry ends with the first call that fails. -/
def PassesOn (x : Inquiry C A ι ε α) (wrap : OracleError → ε)
    (Own : List (Exchange C A ι) → ε → Prop) : Prop :=
  ∀ exchanges result, x.run.Yields exchanges result → Ends wrap Own exchanges result

/-- The inquiry has no errors but those of the oracle. -/
abbrev IsTransparent (x : Inquiry C A ι OracleError α) : Prop :=
  x.PassesOn id fun _ _ => False

variable {x : Inquiry C A ι ε α} {f : α → Inquiry C A ι ε β} {wrap : OracleError → ε}
  {Own : List (Exchange C A ι) → ε → Prop}

theorem PassesOn.imp {Own' : List (Exchange C A ι) → ε → Prop} (hx : x.PassesOn wrap Own)
    (h : ∀ exchanges error, Own exchanges error → Own' exchanges error) :
    x.PassesOn wrap Own' := by
  intro exchanges result hyields
  cases hx exchanges result hyields with
  | failed hfailed => exact .failed hfailed
  | own hunfailing hown => exact .own hunfailing (h exchanges _ hown)
  | value hunfailing => exact .value hunfailing

/-- An error is that of a call, or the inquiry's own. -/
theorem PassesOn.failed_or_own (hx : x.PassesOn wrap Own) {exchanges : List (Exchange C A ι)}
    {error : ε} (h : x.run.Yields exchanges (.error error)) :
    (∃ call ∈ exchanges, ∃ cause, call.failure? = some cause ∧ error = wrap cause) ∨
      Own exchanges error := by
  cases hx exchanges _ h with
  | own _ hown => exact .inr hown
  | @failed cause hfailed =>
      obtain ⟨call, hmem, hcall⟩ := hfailed.exists_mem
      exact .inl ⟨call, hmem, cause, hcall, rfl⟩

/-- A call that fails decides how the inquiry ends. -/
theorem PassesOn.eq_of_failure (hx : x.PassesOn wrap Own) {exchanges : List (Exchange C A ι)}
    {result : Except ε α} (h : x.run.Yields exchanges result) {call : Exchange C A ι}
    (hmem : call ∈ exchanges) {error : OracleError} (hcall : call.failure? = some error) :
    result = .error (wrap error) := by
  have hcalls : call ∈ calls exchanges := mem_calls_of_failure? hmem hcall
  have hunfailing : ¬ Unfailing exchanges := by
    intro hunfailing
    have hnone := hunfailing call hcalls
    rw [hcall] at hnone
    cases hnone
  cases hx exchanges result h with
  | failed hfailed =>
      obtain ⟨before, after, hsplit⟩ := List.append_of_mem hcalls
      obtain ⟨-, rfl⟩ := hfailed.last hsplit hcall
      rfl
  | own hnone _ => exact absurd hnone hunfailing
  | value hnone => exact absurd hnone hunfailing

theorem passesOn_pure (value : α) : (pure value : Inquiry C A ι ε α).PassesOn wrap Own := by
  intro exchanges result h
  obtain ⟨rfl, rfl⟩ := Dialogue.yields_done_iff.mp h
  exact .value (unfailing_of_calls_eq_nil rfl)

theorem passesOn_throw {error : ε} (h : Own [] error) :
    (throw error : Inquiry C A ι ε α).PassesOn wrap Own := by
  intro exchanges result hyields
  obtain ⟨rfl, rfl⟩ := Dialogue.yields_done_iff.mp hyields
  exact .own (unfailing_of_calls_eq_nil rfl) h

theorem passesOn_abandon (misuse : Misuse) :
    (abandon misuse : Inquiry C A ι ε α).PassesOn wrap Own := by
  intro exchanges result h
  exact absurd h Dialogue.not_yields_abandon

/-- The second part of an inquiry is made only if no call of the first part failed. -/
theorem PassesOn.bind (hx : x.PassesOn wrap Own)
    (hf : ∀ asked value, x.run.Yields asked (.ok value) →
      (f value).PassesOn wrap fun exchanges error => Own (asked ++ exchanges) error) :
    (x >>= f).PassesOn wrap Own := by
  intro exchanges result h
  rcases yields_bind_iff.mp h with ⟨error, herror, rfl⟩ | ⟨first, second, value, rfl, hfirst, h⟩
  · cases hx exchanges _ herror with
    | failed hfailed => exact .failed hfailed
    | own hunfailing hown => exact .own hunfailing hown
  · cases hx first _ hfirst with
    | value hunfailing =>
        cases hf first value hfirst second result h with
        | failed hfailed => exact .failed (hfailed.append_left hunfailing)
        | own hsecond hown => exact .own (unfailing_append_iff.mpr ⟨hunfailing, hsecond⟩) hown
        | value hsecond => exact .value (unfailing_append_iff.mpr ⟨hunfailing, hsecond⟩)

/-- Questions other than calls cannot fail. -/
theorem passesOn_lift {d : Dialogue C A ι α} (hd : d.Asks fun question => question.isCall = false) :
    PassesOn (ExceptT.lift d : Inquiry C A ι ε α) wrap Own := by
  intro exchanges result h
  obtain ⟨value, hvalue, rfl⟩ := yields_lift_iff.mp h
  refine .value (unfailing_of_calls_eq_nil (List.filter_eq_nil_iff.mpr fun exchange hmem => ?_))
  simp [hvalue.question_of_asks hd exchange hmem]

theorem passesOn_mapM {f : α → Inquiry C A ι ε β} {xs : List α}
    (h : ∀ Own : List (Exchange C A ι) → ε → Prop, ∀ x ∈ xs, (f x).PassesOn wrap Own) :
    (xs.mapM f).PassesOn wrap Own := by
  induction xs generalizing Own with
  | nil => exact passesOn_pure []
  | cons x xs ih =>
      rw [List.mapM_cons]
      refine (h _ x List.mem_cons_self).bind fun _ _ _ => ?_
      refine PassesOn.bind ?_ fun _ _ _ => passesOn_pure _
      exact ih fun Own y hy => h Own y (List.mem_cons_of_mem x hy)

theorem IsTransparent.orUnavailable {x : Inquiry C A ι OracleError α} (hx : x.IsTransparent)
    {Own : List (Exchange C A ι) → DiagnosisError → Prop} :
    x.orUnavailable.PassesOn .unavailable Own := by
  intro exchanges result h
  obtain ⟨inner, hinner, rfl⟩ := yields_orUnavailable_iff.mp h
  cases hx exchanges inner hinner with
  | failed hfailed => exact .failed hfailed
  | own hunfailing hown => exact hown.elim
  | value hunfailing => exact .value hunfailing

/-- An inquiry that makes a single call ends as the call does. -/
theorem ends_of_calls {exchanges : List (Exchange C A ι)} {call : Exchange C A ι}
    {result : Except OracleError α} (hcalls : calls exchanges = [call])
    (hcall : call.failure? = error? result) : Ends id (fun _ _ => False) exchanges result := by
  cases result with
  | error error => exact .failed ⟨[], call, hcalls, by simp, hcall⟩
  | ok value =>
      refine .value fun other hother => ?_
      rw [hcalls] at hother
      rw [List.mem_singleton.mp hother]
      exact hcall

theorem isTransparent_solve (constraints : List C) :
    (solve constraints : Inquiry C A ι OracleError (Outcome A)).IsTransparent := by
  intro exchanges result h
  obtain rfl := Dialogue.Yields.single h
  exact ends_of_calls rfl rfl

theorem isTransparent_maximize (hard : List C) (soft : List (SoftTerm C ι)) :
    (maximize hard soft : Inquiry C A ι OracleError (Optimum A)).IsTransparent := by
  intro exchanges result h
  obtain rfl := Dialogue.Yields.single h
  exact ends_of_calls rfl rfl

theorem isTransparent_allM {test : α → Inquiry C A ι OracleError Bool} {xs : List α}
    (h : ∀ x ∈ xs, (test x).IsTransparent) : (xs.allM test).IsTransparent := by
  induction xs with
  | nil => exact passesOn_pure true
  | cons x xs ih =>
      obtain ⟨hx, hxs⟩ := List.forall_mem_cons.mp h
      rw [List.allM]
      refine hx.bind fun _ passed _ => ?_
      cases passed with
      | false => exact passesOn_pure false
      | true => exact ih hxs

/-- Where only verdicts are asked for, an error is that of a verdict. -/
theorem IsTransparent.failed {x : Inquiry C A ι OracleError α} (hx : x.IsTransparent)
    (hasks : x.run.Asks Question.IsSolve) {exchanges : List (Exchange C A ι)} {error : OracleError}
    (h : x.run.Yields exchanges (.error error)) : Failed exchanges error := by
  rcases hx.failed_or_own h with ⟨⟨question, answer⟩, hmem, cause, hfailure, rfl⟩ | hown
  · obtain ⟨constraints, rfl⟩ := h.question_of_asks hasks _ hmem
    rcases answer with misuse | cause | outcome <;> cases hfailure
    exact ⟨constraints, hmem⟩
  · exact hown.elim

end Inquiry

namespace Problem

theorem isTransparent_ask (problem : Problem C) (positions : List Nat) :
    (problem.ask positions : Inquiry C A ι OracleError (Outcome A)).IsTransparent := by
  rw [ask]
  split
  · exact Inquiry.passesOn_abandon _
  · exact Inquiry.isTransparent_solve _

end Problem

end Infeasibility
