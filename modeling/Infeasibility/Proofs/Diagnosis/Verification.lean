import Infeasibility.Proofs.Diagnosis.Protocol

/-! # Verified diagnoses

A diagnosis that is verified comes with a certificate: one verdict on the diagnosis itself, and one
on each change by a single element. They are given in this order, and nothing else is asked. -/

namespace Infeasibility

variable {C A ι : Type}

/-- The exchange is a verdict on the constraints. -/
def Exchange.IsVerdict (constraints : List C) (satisfiable : Bool) (exchange : Exchange C A ι) :
    Prop :=
  ∃ outcome : Outcome A, outcome.isSat = satisfiable ∧
    exchange = ⟨.solve constraints, .ok (.ok outcome)⟩

namespace Problem

variable {problem : Problem C} {exchanges : List (Exchange C A ι)}

/-! ## Certificates -/

/-- The verdicts that make a diagnosis a minimal one of its kind. Each is on the hard constraints
and the soft ones at some positions. -/
def certificate (problem : Problem C) :
    Kind → Diagnosis problem.soft → List (List Nat × Bool)
  | .core, core =>
    (core.positions, false) ::
      core.positions.map fun removed => (core.positions.filter (· ≠ removed), true)
  | .correction, correction =>
    (correction.complement, true) ::
      correction.positions.map fun restored =>
        (Ascending.insert restored correction.complement, false)

/-- The exchanges are the verdicts of the certificate, one after the other. -/
def Certified (problem : Problem C) (kind : Kind) (diagnosis : Diagnosis problem.soft)
    (exchanges : List (Exchange C A ι)) : Prop :=
  List.Forall₂ (fun demanded => Exchange.IsVerdict (problem.select demanded.1) demanded.2)
    (problem.certificate kind diagnosis) exchanges

theorem Certified.answered {kind : Kind} {diagnosis : Diagnosis problem.soft}
    (h : problem.Certified kind diagnosis exchanges) {positions : List Nat} {satisfiable : Bool}
    (hmem : (positions, satisfiable) ∈ problem.certificate kind diagnosis) :
    Answered exchanges (problem.select positions) satisfiable := by
  obtain ⟨index, hindex, hget⟩ := List.mem_iff_getElem.mp hmem
  have hlt : index < exchanges.length := h.length_eq ▸ hindex
  have hverdict := h.get hindex hlt
  simp only [List.get_eq_getElem, hget] at hverdict
  obtain ⟨outcome, houtcome, hexchange⟩ := hverdict
  exact ⟨outcome, houtcome, hexchange ▸ List.getElem_mem hlt⟩

/-! ## Checks that succeed -/

theorem isVerdict_of_yields_ask {positions : List Nat} {outcome : Outcome A}
    (hpositions : ∀ position ∈ positions, position < problem.soft.length)
    (h : (problem.ask positions).run.Yields exchanges (.ok outcome)) :
    ∃ exchange, exchanges = [exchange] ∧
      exchange.IsVerdict (problem.select positions) outcome.isSat :=
  ⟨_, yields_ask hpositions h, outcome, rfl, rfl⟩

/-- A test that all elements pass makes the exchanges of each element, one after the other. -/
theorem forall₂_of_yields_allM {α ε : Type} {test : α → Inquiry C A ι ε Bool} {xs : List α}
    {R : α → Exchange C A ι → Prop}
    (htest : ∀ x ∈ xs, ∀ part, (test x).run.Yields part (.ok true) →
      ∃ exchange, part = [exchange] ∧ R x exchange)
    (h : (xs.allM test).run.Yields exchanges (.ok true)) : List.Forall₂ R xs exchanges := by
  induction xs generalizing exchanges with
  | nil =>
      obtain ⟨rfl, -⟩ := Dialogue.yields_done_iff.mp h
      exact .nil
  | cons x xs ih =>
      obtain ⟨hx, hxs⟩ := List.forall_mem_cons.mp htest
      rw [List.allM] at h
      obtain ⟨first, second, passed, rfl, hfirst, hsecond⟩ := Inquiry.yields_bind_ok_iff.mp h
      cases passed with
      | false => cases (Dialogue.yields_done_iff.mp hsecond).2
      | true =>
          obtain ⟨exchange, rfl, hR⟩ := hx first hfirst
          exact .cons hR (ih hxs hsecond)

theorem certified_of_yields_isMinimal {kind : Kind} {diagnosis : Diagnosis problem.soft}
    (h : (problem.isMinimal kind diagnosis).run.Yields exchanges (.ok true)) :
    problem.Certified kind diagnosis exchanges := by
  cases kind with
  | core =>
      obtain ⟨first, second, outcome, rfl, hask, hrest⟩ := Inquiry.yields_bind_ok_iff.mp h
      obtain ⟨exchange, rfl, hverdict⟩ := isVerdict_of_yields_ask diagnosis.lt_length hask
      cases outcome with
      | satisfiable assignment => cases (Dialogue.yields_done_iff.mp hrest).2
      | unsatisfiable =>
          refine .cons hverdict (List.forall₂_map_left_iff.mpr ?_)
          refine forall₂_of_yields_allM (fun removed _ part hpart => ?_) hrest
          obtain ⟨asked, last, verdict, rfl, hask, hlast⟩ := Inquiry.yields_bind_ok_iff.mp hpart
          obtain ⟨rfl, hsat⟩ := Dialogue.yields_done_iff.mp hlast
          have hlt : ∀ position ∈ diagnosis.positions.filter (· ≠ removed),
              position < problem.soft.length := fun position hmem =>
            diagnosis.lt_length position (List.mem_filter.mp hmem).1
          obtain ⟨exchange, rfl, hverdict⟩ := isVerdict_of_yields_ask hlt hask
          rw [← Except.ok.inj hsat] at hverdict
          exact ⟨exchange, rfl, hverdict⟩
  | correction =>
      have hcomplement : ∀ position ∈ diagnosis.complement, position < problem.soft.length :=
        fun position hmem => (Diagnosis.mem_complement.mp hmem).1
      obtain ⟨first, second, outcome, rfl, hask, hrest⟩ := Inquiry.yields_bind_ok_iff.mp h
      obtain ⟨exchange, rfl, hverdict⟩ := isVerdict_of_yields_ask hcomplement hask
      cases outcome with
      | unsatisfiable => cases (Dialogue.yields_done_iff.mp hrest).2
      | satisfiable assignment =>
          refine .cons hverdict (List.forall₂_map_left_iff.mpr ?_)
          refine forall₂_of_yields_allM (fun restored hrestored part hpart => ?_) hrest
          obtain ⟨asked, last, verdict, rfl, hask, hlast⟩ := Inquiry.yields_bind_ok_iff.mp hpart
          obtain ⟨rfl, hunsat⟩ := Dialogue.yields_done_iff.mp hlast
          have hlt : ∀ position ∈ Ascending.insert restored diagnosis.complement,
              position < problem.soft.length := by
            intro position hmem
            rcases Ascending.mem_insert.mp hmem with rfl | hmem
            · exact diagnosis.lt_length position hrestored
            · exact hcomplement position hmem
          obtain ⟨exchange, rfl, hverdict⟩ := isVerdict_of_yields_ask hlt hask
          have hsat : verdict.isSat = false := by
            simpa [Outcome.isUnsat] using Except.ok.inj hunsat
          rw [hsat] at hverdict
          exact ⟨exchange, rfl, hverdict⟩

/-! ## Verification as a second part -/

variable {kind : Kind} {diagnosis : Diagnosis problem.soft}

/-- Lets a diagnosis pass if the oracle, when asked, takes it for a minimal one of its kind. -/
def verified (problem : Problem C) (kind : Kind) (diagnosis : Diagnosis problem.soft) :
    Inquiry C A ι DiagnosisError (Diagnosis problem.soft) := do
  if ← (problem.isMinimal kind diagnosis).orUnavailable then
    return diagnosis
  else
    throw (.unavailable (.inconsistent
      (Listing.inline (diagnosis.positions.map toString) ++ " is not a " ++ kind.abbreviation)))

theorem conclude_true (problem : Problem C) (kind : Kind) (positions : List Nat) :
    (problem.conclude true kind positions :
      Inquiry C A ι DiagnosisError (Diagnosis problem.soft)) =
      problem.conclude false kind positions >>= problem.verified kind := by
  rw [conclude, conclude]
  split
  · rfl
  · rename_i diagnosis hdiagnosis
    rw [if_pos rfl, if_neg Bool.false_ne_true, pure_bind, verified,
      positions_of_ofPositions? hdiagnosis]

theorem reject_true (problem : Problem C) (rejected : List Nat) :
    (problem.reject true rejected : Inquiry C A ι DiagnosisError (Diagnosis problem.soft)) =
      problem.reject false rejected >>= problem.verified .correction := by
  rw [reject, reject]
  split
  · rfl
  · exact problem.conclude_true .correction rejected

theorem correctionOfOptimum_true (problem : Problem C) (terms : String) (optimum : Optimum A) :
    (problem.correctionOfOptimum true terms optimum :
      Inquiry C A ι DiagnosisError (Diagnosis problem.soft)) =
      problem.correctionOfOptimum false terms optimum >>= problem.verified .correction := by
  cases optimum with
  | unsatisfiable => rfl
  | optimal satisfied assignment =>
      rw [correctionOfOptimum, correctionOfOptimum]
      split
      · exact problem.reject_true (falsePositions satisfied)
      · rfl

/-- What passes the verification has been certified. -/
theorem certified_of_yields_verified {found : Diagnosis problem.soft}
    (h : (problem.verified kind found).run.Yields exchanges (.ok diagnosis)) :
    found = diagnosis ∧ problem.Certified kind diagnosis exchanges := by
  obtain ⟨check, rest, minimal, rfl, hcheck, hrest⟩ := Inquiry.yields_bind_ok_iff.mp h
  cases minimal with
  | false => cases (Dialogue.yields_done_iff.mp hrest).2
  | true =>
      obtain ⟨rfl, hsame⟩ := Dialogue.yields_done_iff.mp hrest
      obtain rfl := Except.ok.inj hsame
      rw [List.append_nil]
      exact ⟨rfl, certified_of_yields_isMinimal (Inquiry.yields_orUnavailable_ok_iff.mp hcheck)⟩

/-- A verified correction is certified by the last exchanges. -/
theorem certified_of_yields_correctionOfOptimum {terms : String} {optimum : Optimum A}
    {correction : Diagnosis problem.soft}
    (h : (problem.correctionOfOptimum true terms optimum).run.Yields exchanges (.ok correction)) :
    ∃ earlier check, exchanges = earlier ++ check ∧
      problem.Certified .correction correction check := by
  rw [correctionOfOptimum_true] at h
  obtain ⟨earlier, check, found, rfl, -, hcheck⟩ := Inquiry.yields_bind_ok_iff.mp h
  obtain ⟨rfl, hcertified⟩ := certified_of_yields_verified hcheck
  exact ⟨earlier, check, rfl, hcertified⟩

end Problem

end Infeasibility
