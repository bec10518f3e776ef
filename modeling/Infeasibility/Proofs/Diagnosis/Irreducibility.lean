import Infeasibility.Proofs.Conflict.Consistency
import Infeasibility.Proofs.Diagnosis.Certification
import Infeasibility.Proofs.Diagnosis.Propagation

/-! # Checks decide minimality

To be a core is a monotone property of diagnoses, and so is to be a correction. A diagnosis is
therefore minimal if the property is lost with each single element, and this is what the checks ask
about. If the verdicts are true, a check says whether the diagnosis is minimal; an oracle that
decides gives no others. -/

namespace Infeasibility

/-! ## Diagnoses without an element -/

namespace Diagnosis

variable {α : Type} {source : List α} {diagnosis : Diagnosis source}

/-- The other elements of a diagnosis. -/
def erase (diagnosis : Diagnosis source) (removed : Nat) : Diagnosis source where
  positions := diagnosis.positions.filter (· ≠ removed)
  increasing := diagnosis.increasing.filter _
  lt_length := fun position hmem => diagnosis.lt_length position (List.mem_filter.mp hmem).1

theorem mem_erase {removed position : Nat} :
    position ∈ (diagnosis.erase removed).positions ↔
      position ∈ diagnosis.positions ∧ position ≠ removed := by
  simp [erase]

theorem erase_le (diagnosis : Diagnosis source) (removed : Nat) :
    diagnosis.erase removed ≤ diagnosis :=
  fun _ hmem => (mem_erase.mp hmem).1

/-- What is erased goes to the complement. -/
theorem complement_erase {removed : Nat} (h : removed ∈ diagnosis.positions) :
    (diagnosis.erase removed).complement = Ascending.insert removed diagnosis.complement := by
  rw [diagnosis.insert_complement (diagnosis.lt_length removed h), complement]
  refine List.filter_congr fun position _ => ?_
  rw [Bool.eq_iff_iff, Bool.not_eq_true', ← Bool.not_eq_true, contains_eq_true_iff, mem_erase,
    decide_eq_true_eq]
  tauto

/-- A monotone property is minimal where it is lost with each single element. -/
theorem minimal_iff_erase {P : Diagnosis source → Prop} (hP : Monotone P) :
    Minimal P diagnosis ↔
      P diagnosis ∧ ∀ removed ∈ diagnosis.positions, ¬ P (diagnosis.erase removed) := by
  constructor
  · intro h
    refine ⟨h.prop, fun removed hmem hsmaller => ?_⟩
    have hkept := h.le_of_le hsmaller (diagnosis.erase_le removed) removed hmem
    exact (mem_erase.mp hkept).2 rfl
  · rintro ⟨hdiagnosis, herase⟩
    refine ⟨hdiagnosis, fun other hother hle => ?_⟩
    by_contra hnot
    obtain ⟨removed, hmem, hmissing⟩ :
        ∃ removed ∈ diagnosis.positions, removed ∉ other.positions := by
      simpa [le_iff] using hnot
    have hother_le : other ≤ diagnosis.erase removed := by
      intro position hposition
      exact mem_erase.mpr ⟨hle position hposition, fun heq => hmissing (heq ▸ hposition)⟩
    exact herase removed hmem (hP hother_le hother)

end Diagnosis

namespace Problem

variable {σ C A ι : Type} {problem : Problem C} {sat : List C → Prop} {kind : Kind}
  {diagnosis : Diagnosis problem.soft} {exchanges : List (Exchange C A ι)}

/-! ## Monotone properties -/

/-- To be a diagnosis of a kind, minimal or not. -/
def Is (problem : Problem C) (sat : List C → Prop) : Kind → Diagnosis problem.soft → Prop
  | .core => problem.IsCore sat
  | .correction => problem.IsCorrection sat

theorem monotone_isCore (hsat : Hereditary sat) : Monotone (problem.IsCore sat) := by
  intro first second hle hfirst hsecond
  exact hfirst (hsat (select_sublist
    (sublist_of_forall_mem first.increasing second.increasing hle)) hsecond)

theorem monotone_isCorrection (hsat : Hereditary sat) : Monotone (problem.IsCorrection sat) := by
  intro first second hle hfirst
  refine hsat (select_sublist ?_) hfirst
  refine sublist_of_forall_mem second.complement_pairwise first.complement_pairwise ?_
  intro position hmem
  obtain ⟨hlt, hnot⟩ := Diagnosis.mem_complement.mp hmem
  exact Diagnosis.mem_complement.mpr ⟨hlt, fun hfirst => hnot (hle position hfirst)⟩

theorem monotone_is (hsat : Hereditary sat) (kind : Kind) : Monotone (problem.Is sat kind) := by
  cases kind with
  | core => exact monotone_isCore hsat
  | correction => exact monotone_isCorrection hsat

/-! ## Checks that succeed -/

theorem Certified.minimal (hsat : Hereditary sat) (htrue : Truthful sat exchanges)
    (h : problem.Certified kind diagnosis exchanges) :
    Minimal (problem.Is sat kind) diagnosis := by
  rw [Diagnosis.minimal_iff_erase (monotone_is hsat kind)]
  cases kind with
  | core =>
      refine ⟨htrue.unsat (h.answered List.mem_cons_self), fun removed hmem hcore => ?_⟩
      refine hcore (htrue.sat (h.answered (List.mem_cons_of_mem _ ?_)))
      exact List.mem_map.mpr ⟨removed, hmem, rfl⟩
  | correction =>
      refine ⟨htrue.sat (h.answered List.mem_cons_self), fun restored hmem hcorrection => ?_⟩
      refine htrue.unsat (h.answered (List.mem_cons_of_mem _ ?_)) hcorrection
      exact List.mem_map.mpr ⟨restored, hmem, by rw [Diagnosis.complement_erase hmem]⟩

/-! ## Checks that fail -/

/-- A test that some element does not pass ends with the exchanges of that element. -/
theorem exists_of_yields_allM {α ε : Type} {test : α → Inquiry C A ι ε Bool} {xs : List α}
    (h : (xs.allM test).run.Yields exchanges (.ok false)) :
    ∃ x ∈ xs, ∃ earlier last, exchanges = earlier ++ last ∧
      (test x).run.Yields last (.ok false) := by
  induction xs generalizing exchanges with
  | nil => cases (Dialogue.yields_done_iff.mp h).2
  | cons x xs ih =>
      rw [List.allM] at h
      obtain ⟨first, second, passed, rfl, hfirst, hsecond⟩ := Inquiry.yields_bind_ok_iff.mp h
      cases passed with
      | false =>
          obtain ⟨rfl, -⟩ := Dialogue.yields_done_iff.mp hsecond
          exact ⟨x, List.mem_cons_self, [], first, by simp, hfirst⟩
      | true =>
          obtain ⟨y, hmem, earlier, last, rfl, hlast⟩ := ih hsecond
          exact ⟨y, List.mem_cons_of_mem x hmem, first ++ earlier, last, by simp, hlast⟩

/-- A check that fails has a verdict against the diagnosis, or one in favour of a smaller one. -/
theorem not_minimal_of_yields_isMinimal (hsat : Hereditary sat) (htrue : Truthful sat exchanges)
    (h : (problem.isMinimal kind diagnosis).run.Yields exchanges (.ok false)) :
    ¬ Minimal (problem.Is sat kind) diagnosis := by
  rw [Diagnosis.minimal_iff_erase (monotone_is hsat kind)]
  rintro ⟨hdiagnosis, herase⟩
  cases kind with
  | core =>
      obtain ⟨first, second, outcome, rfl, hask, hrest⟩ := Inquiry.yields_bind_ok_iff.mp h
      have hverdict := answered_of_yields_ask diagnosis.lt_length hask
      cases outcome with
      | satisfiable assignment => exact hdiagnosis (htrue.sat hverdict.append_right)
      | unsatisfiable =>
          obtain ⟨removed, hmem, earlier, last, rfl, hlast⟩ := exists_of_yields_allM hrest
          obtain ⟨asked, rest, verdict, rfl, hask, hrest⟩ := Inquiry.yields_bind_ok_iff.mp hlast
          obtain ⟨rfl, hunsat⟩ := Dialogue.yields_done_iff.mp hrest
          have hanswered := answered_of_yields_ask (diagnosis.erase removed).lt_length hask
          rw [← Except.ok.inj hunsat] at hanswered
          refine herase removed hmem (htrue.unsat ?_)
          exact hanswered.append_right.append_left.append_left
  | correction =>
      have hcomplement : ∀ position ∈ diagnosis.complement, position < problem.soft.length :=
        fun position hmem => (Diagnosis.mem_complement.mp hmem).1
      obtain ⟨first, second, outcome, rfl, hask, hrest⟩ := Inquiry.yields_bind_ok_iff.mp h
      have hverdict := answered_of_yields_ask hcomplement hask
      cases outcome with
      | unsatisfiable => exact htrue.unsat hverdict.append_right hdiagnosis
      | satisfiable assignment =>
          obtain ⟨restored, hmem, earlier, last, rfl, hlast⟩ := exists_of_yields_allM hrest
          obtain ⟨asked, rest, verdict, rfl, hask, hrest⟩ := Inquiry.yields_bind_ok_iff.mp hlast
          obtain ⟨rfl, hsat'⟩ := Dialogue.yields_done_iff.mp hrest
          rw [← Diagnosis.complement_erase hmem] at hask
          have hanswered := answered_of_yields_ask
            (fun position hmem => (Diagnosis.mem_complement.mp hmem).1) hask
          have htrue' : verdict.isSat = true := by
            simpa [Outcome.isUnsat] using Except.ok.inj hsat'
          rw [htrue'] at hanswered
          refine herase restored hmem (htrue.sat ?_)
          exact hanswered.append_right.append_left.append_left

/-- If all verdicts are true, a check says whether the diagnosis is minimal. -/
theorem yields_isMinimal_iff (hsat : Hereditary sat) (htrue : Truthful sat exchanges)
    {answer : Bool} (h : (problem.isMinimal kind diagnosis).run.Yields exchanges (.ok answer)) :
    answer = true ↔ Minimal (problem.Is sat kind) diagnosis := by
  cases answer with
  | true => exact iff_of_true rfl ((certified_of_yields_isMinimal h).minimal hsat htrue)
  | false =>
      exact iff_of_false Bool.false_ne_true (not_minimal_of_yields_isMinimal hsat htrue h)

/-! ## Oracles that decide -/

theorem minimal_isCore_iff : Minimal (problem.Is sat .core) diagnosis ↔
    ¬ sat (problem.select diagnosis.positions) ∧
      ∀ smaller < diagnosis, sat (problem.select smaller.positions) := by
  rw [minimal_iff_forall_lt]
  simp [Is, IsCore]

theorem minimal_isCorrection_iff : Minimal (problem.Is sat .correction) diagnosis ↔
    sat (problem.select diagnosis.complement) ∧
      ∀ smaller < diagnosis, ¬ sat (problem.select smaller.complement) := by
  rw [minimal_iff_forall_lt]
  rfl

/-- With an oracle that decides, a check comes to an answer, which is right. -/
theorem result_isMinimal {oracle : Oracle σ C A ι} (horacle : oracle.Decides sat)
    (hsat : Hereditary sat) (kind : Kind) (diagnosis : Diagnosis problem.soft) (state : σ) :
    ∃ answer, (problem.isMinimal kind diagnosis).result oracle state = .ok (.ok answer) ∧
      (answer = true ↔ Minimal (problem.Is sat kind) diagnosis) := by
  have hasks : (problem.isMinimal kind diagnosis :
      Inquiry C A ι OracleError Bool).run.Asks Question.IsSolve :=
    questionsSatisfy_isSolve.asks_isMinimal le_rfl kind diagnosis
  obtain ⟨result, exchanges, hresult, hyields, htrue, hfailed⟩ :=
    horacle.exists_result hasks state
  cases result with
  | error error =>
      have hcause := (isTransparent_isMinimal problem kind diagnosis).failed hasks hyields
      exact absurd hcause (hfailed error)
  | ok answer => exact ⟨answer, hresult, yields_isMinimal_iff hsat htrue hyields⟩

/-- With an oracle that decides a hereditary predicate, the checks try all smaller diagnoses by
trying those that lack a single element. A diagnosis passes as a core if and only if it cannot hold
but each smaller one can, and as a correction if and only if the others can hold but no more than
they. Otherwise the checks deny it. -/
theorem isMinimal_decides (oracle : Oracle σ C A ι) (sat : List C → Prop)
    (horacle : oracle.Decides sat) (hsat : Hereditary sat) (problem : Problem C)
    (diagnosis : Diagnosis problem.soft) (state : σ) :
    (∃ answer, (problem.isMinimalCore diagnosis).result oracle state = .ok (.ok answer) ∧
      (answer = true ↔ ¬ sat (problem.select diagnosis.positions) ∧
        ∀ smaller < diagnosis, sat (problem.select smaller.positions))) ∧
    ∃ answer, (problem.isMinimalCorrection diagnosis).result oracle state = .ok (.ok answer) ∧
      (answer = true ↔ sat (problem.select diagnosis.complement) ∧
        ∀ smaller < diagnosis, ¬ sat (problem.select smaller.complement)) := by
  constructor
  · rw [← minimal_isCore_iff]
    exact result_isMinimal horacle hsat .core diagnosis state
  · rw [← minimal_isCorrection_iff]
    exact result_isMinimal horacle hsat .correction diagnosis state

/-- Two constraints that contradict each other are a minimal core. To reject both is too much. -/
theorem isMinimal_decides_of_conflict :
    let sat := fun atoms => Conflict.isConsistent [[0, 1]] (Ascending.ofList atoms)
    let problem : Problem Nat := { soft := [0, 1], hard := [4] }
    let both : Diagnosis problem.soft := ⟨[0, 1], by decide, by decide⟩
    ((problem.isMinimalCore both).result (Oracle.ofPredicate sat) () = .ok (.ok true) ∧
      sat (problem.select both.positions) = false ∧
      ∀ smaller < both, sat (problem.select smaller.positions) = true) ∧
    (problem.isMinimalCorrection both).result (Oracle.ofPredicate sat) () = .ok (.ok false) ∧
      ¬ ∀ smaller < both, sat (problem.select smaller.complement) = false := by
  intro sat problem both
  obtain ⟨⟨passed, hpassed, hcore⟩, denied, hdenied, hcorrection⟩ :=
    isMinimal_decides (Oracle.ofPredicate sat) (sat · = true) (Oracle.decides_ofPredicate sat)
      (Conflict.hereditary_isConsistent _) problem both ()
  have hyes : (problem.isMinimalCore both).result (Oracle.ofPredicate sat) () =
      .ok (.ok true) := rfl
  have hno : (problem.isMinimalCorrection both).result (Oracle.ofPredicate sat) () =
      .ok (.ok false) := rfl
  obtain rfl : true = passed := Except.ok.inj (Except.ok.inj (hyes.symm.trans hpassed))
  obtain rfl : false = denied := Except.ok.inj (Except.ok.inj (hno.symm.trans hdenied))
  refine ⟨⟨hyes, by decide, (hcore.mp rfl).2⟩, hno, fun hsmaller => ?_⟩
  exact Bool.false_ne_true (hcorrection.mpr ⟨by decide, by simpa using hsmaller⟩)

end Problem

end Infeasibility
