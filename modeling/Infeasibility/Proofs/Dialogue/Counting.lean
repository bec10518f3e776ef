import Infeasibility.Oracle.Counting
import Infeasibility.Proofs.Dialogue.Failure
import Mathlib.Algebra.BigOperators.Group.List.Basic
import Mathlib.Algebra.Group.Prod
import Mathlib.Algebra.GroupWithZero.Nat

/-! # Counted questions

What exchanges cost are the verdicts and the optima that were asked for. An oracle that counts has
counted the cost of its transcript after any run, also if a question was not answered. -/

namespace Infeasibility

variable {σ C A ι ε α β : Type}

/-! ## The cost of exchanges -/

/-- The verdicts and the optima that a question asks for. -/
def Question.cost : Question C ι → Nat × Nat
  | .solve _ => (1, 0)
  | .maximize _ _ => (0, 1)
  | .newIndicator | .implication _ _ | .release _ | .supportsSoft => 0

/-- The question is neither for a verdict nor for an optimum. -/
def Question.IsFree (question : Question C ι) : Prop :=
  question.cost = 0

/-- The verdicts and the optima that were asked for. -/
def cost (exchanges : List (Exchange C A ι)) : Nat × Nat :=
  (exchanges.map fun exchange => exchange.question.cost).sum

@[simp] theorem cost_nil : cost ([] : List (Exchange C A ι)) = 0 :=
  rfl

@[simp] theorem cost_cons (exchange : Exchange C A ι) (exchanges : List (Exchange C A ι)) :
    cost (exchange :: exchanges) = exchange.question.cost + cost exchanges := by
  simp [cost]

@[simp] theorem cost_append (first second : List (Exchange C A ι)) :
    cost (first ++ second) = cost first + cost second := by
  simp [cost]

theorem cost_eq_zero {exchanges : List (Exchange C A ι)}
    (h : ∀ exchange ∈ exchanges, exchange.question.IsFree) : cost exchanges = 0 := by
  induction exchanges with
  | nil => rfl
  | cons exchange exchanges ih =>
      obtain ⟨hexchange, hrest⟩ := List.forall_mem_cons.mp h
      rw [cost_cons, hexchange, ih hrest, add_zero]

/-- One verdict and then as many as there are others. -/
theorem verdicts_succ (others : Nat) : (others + 1, 0) = ((1, 0) + (others, 0) : Nat × Nat) := by
  simp [Nat.add_comm]

/-- Questions for verdicts cost one verdict each. -/
theorem cost_eq_of_isSolve {exchanges : List (Exchange C A ι)}
    (h : ∀ exchange ∈ exchanges, exchange.question.IsSolve) :
    cost exchanges = (exchanges.length, 0) := by
  induction exchanges with
  | nil => rfl
  | cons exchange exchanges ih =>
      obtain ⟨⟨constraints, hquestion⟩, hrest⟩ := List.forall_mem_cons.mp h
      rw [cost_cons, ih hrest, hquestion, Question.cost, List.length_cons,
        verdicts_succ exchanges.length]

theorem cost_transcript_of_asks {oracle : Oracle σ C A ι} {state : σ} {x : Dialogue C A ι α}
    (hx : x.Asks Question.IsSolve) :
    cost (x.transcript oracle state) = ((x.transcript oracle state).length, 0) := by
  refine cost_eq_of_isSolve fun exchange hmem => ?_
  exact (Dialogue.answer_of_mem_transcript hx (I := fun _ => True) (fun _ _ _ _ => trivial)
    trivial exchange hmem).1

/-! ## Oracles that count -/

/-- The questions of both kinds. -/
def Counted.counts (state : Counted σ) : Nat × Nat :=
  (state.solves, state.maximizations)

/-- A question is counted whether or not it is answered. -/
theorem counts_answer (oracle : Oracle σ C A ι) (question : Question C ι) (state : Counted σ) :
    (oracle.counting.answer question state).2.counts = state.counts + question.cost := by
  cases question <;> rfl

theorem counts_run (oracle : Oracle σ C A ι) (x : Dialogue C A ι α) (state : Counted σ) :
    (x.run oracle.counting state).2.counts =
      state.counts + cost (x.transcript oracle.counting state) := by
  induction x generalizing state with
  | done value => rfl
  | abandon misuse => rfl
  | ask question next ih =>
      have hcounts := counts_answer oracle question state
      rw [Dialogue.transcript]
      rcases hanswer : oracle.counting.answer question state with ⟨misuse | answer, state'⟩
      · rw [hanswer] at hcounts
        rw [Dialogue.run_ask_of_error hanswer]
        simpa using hcounts
      · rw [hanswer] at hcounts
        rw [Dialogue.run_ask_of_ok hanswer, ih, hcounts, cost_cons, add_assoc]

/-! ## How much is asked, whatever the answers are -/

namespace Dialogue

/-- There are at most so many questions, whatever the answers are. -/
def AsksAtMost : Nat → Dialogue C A ι α → Prop
  | _, done _ => True
  | _, abandon _ => True
  | 0, ask _ _ => False
  | bound + 1, ask _ next => ∀ answer, (next answer).AsksAtMost bound

theorem asksAtMost_done (bound : Nat) (value : α) :
    (done value : Dialogue C A ι α).AsksAtMost bound := by
  simp [AsksAtMost]

theorem asksAtMost_abandon (bound : Nat) (misuse : Misuse) :
    (abandon misuse : Dialogue C A ι α).AsksAtMost bound := by
  simp [AsksAtMost]

theorem AsksAtMost.mono {x : Dialogue C A ι α} {first second : Nat} (h : x.AsksAtMost first)
    (hle : first ≤ second) : x.AsksAtMost second := by
  induction x generalizing first second with
  | done value => exact asksAtMost_done second value
  | abandon misuse => exact asksAtMost_abandon second misuse
  | ask question next ih =>
      cases first with
      | zero => exact h.elim
      | succ first =>
          obtain ⟨second, rfl⟩ : ∃ rest, second = rest + 1 := ⟨second - 1, by omega⟩
          exact fun answer => ih answer (h answer) (by omega)

theorem AsksAtMost.bind {x : Dialogue C A ι α} {f : α → Dialogue C A ι β} {first second : Nat}
    (hx : x.AsksAtMost first) (hf : ∀ value, (f value).AsksAtMost second) :
    (x >>= f).AsksAtMost (first + second) := by
  induction x generalizing first with
  | done value => exact (hf value).mono (Nat.le_add_left second first)
  | abandon misuse => exact asksAtMost_abandon (first + second) misuse
  | ask question next ih =>
      cases first with
      | zero => exact hx.elim
      | succ first =>
          rw [ask_bind, Nat.succ_add]
          exact fun answer => ih answer (hx answer)

theorem length_transcript_le {x : Dialogue C A ι α} {bound : Nat} (hx : x.AsksAtMost bound)
    (oracle : Oracle σ C A ι) (state : σ) : (x.transcript oracle state).length ≤ bound := by
  induction x generalizing bound state with
  | done value => simp [transcript]
  | abandon misuse => simp [transcript]
  | ask question next ih =>
      cases bound with
      | zero => exact hx.elim
      | succ bound =>
          rw [transcript]
          rcases oracle.answer question state with ⟨misuse | answer, state'⟩
          · simp
          · simpa using ih answer (hx answer) state'

theorem AsksAtMost.eq_nil_of_yields {x : Dialogue C A ι α} (hx : x.AsksAtMost 0)
    {exchanges : List (Exchange C A ι)} {value : α} (h : x.Yields exchanges value) :
    exchanges = [] := by
  cases h with
  | done value => rfl
  | ask h => exact hx.elim

end Dialogue

/-! ## Inquiries in which no call fails -/

namespace Inquiry

/-- A run in which no call fails has this cost. -/
def Costs (x : Inquiry C A ι ε α) (price : Nat × Nat) : Prop :=
  ∀ exchanges result, x.run.Yields exchanges result → Unfailing exchanges → cost exchanges = price

theorem costs_pure (value : α) : (pure value : Inquiry C A ι ε α).Costs 0 := by
  intro exchanges result h _
  obtain ⟨rfl, -⟩ := Dialogue.yields_done_iff.mp h
  rfl

theorem costs_abandon (misuse : Misuse) (price : Nat × Nat) :
    (abandon misuse : Inquiry C A ι ε α).Costs price := by
  intro exchanges result h _
  exact absurd h Dialogue.not_yields_abandon

/-- The first part ends with an error only if a call fails. -/
theorem Costs.bind {x : Inquiry C A ι ε α} {f : α → Inquiry C A ι ε β}
    {wrap : OracleError → ε} {first second : Nat × Nat} (hx : x.Costs first)
    (hpasses : x.PassesOn wrap fun _ _ => False) (hf : ∀ value, (f value).Costs second) :
    (x >>= f).Costs (first + second) := by
  intro exchanges result h hunfailing
  rcases yields_bind_iff.mp h with ⟨error, herror, -⟩ | ⟨before, behind, value, rfl, hx', hf'⟩
  · cases hpasses exchanges _ herror with
    | failed hfailed => exact absurd hunfailing hfailed.not_unfailing
    | own _ hown => exact hown.elim
  · obtain ⟨hbefore, hbehind⟩ := unfailing_append_iff.mp hunfailing
    rw [cost_append, hx before _ hx' hbefore, hf value behind _ hf' hbehind]

theorem Costs.orUnavailable {x : Inquiry C A ι OracleError α} {price : Nat × Nat}
    (hx : x.Costs price) : x.orUnavailable.Costs price := by
  intro exchanges result h hunfailing
  obtain ⟨inner, hinner, -⟩ := yields_orUnavailable_iff.mp h
  exact hx exchanges inner hinner hunfailing

theorem asksAtMost_bind {x : Inquiry C A ι ε α} {f : α → Inquiry C A ι ε β} {first second : Nat}
    (hx : x.run.AsksAtMost first) (hf : ∀ value, (f value).run.AsksAtMost second) :
    (x >>= f).run.AsksAtMost (first + second) := by
  rw [ExceptT.run_bind]
  refine hx.bind fun result => ?_
  cases result with
  | error error => exact Dialogue.asksAtMost_done second _
  | ok value => exact hf value

theorem asksAtMost_orUnavailable {x : Inquiry C A ι OracleError α} {bound : Nat}
    (hx : x.run.AsksAtMost bound) : x.orUnavailable.run.AsksAtMost bound := by
  change (Except.mapError DiagnosisError.unavailable <$> x.run).AsksAtMost bound
  rw [← bind_pure_comp]
  exact hx.bind fun result => Dialogue.asksAtMost_done 0 _

end Inquiry

end Infeasibility
