import Infeasibility.Diagnosis.Fault
import Infeasibility.Diagnosis.Method
import Infeasibility.Proofs.Dialogue.Counting

/-! # Counting changes nothing

An oracle that counts puts each question to the oracle inside it and passes the answer on. So it is
told apart from that oracle by its counts only, however long it is used and for whatever purpose,
and the counts are those of the questions that reached the oracle inside. -/

namespace Infeasibility

variable {σ C A ι α : Type}

/-! ## Questions -/

/-- A question and its answer take place inside. -/
theorem answer_counting (oracle : Oracle σ C A ι) (question : Question C ι) (state : Counted σ) :
    (oracle.counting.answer question state).1 = (oracle.answer question state.inner).1 ∧
      (oracle.counting.answer question state).2.inner = (oracle.answer question state.inner).2 := by
  cases question <;> exact ⟨rfl, rfl⟩

/-! ## Dialogues -/

/-- A dialogue takes the same course inside. -/
theorem run_counting (oracle : Oracle σ C A ι) (x : Dialogue C A ι α) (state : Counted σ) :
    (x.run oracle.counting state).1 = (x.run oracle state.inner).1 ∧
      (x.run oracle.counting state).2.inner = (x.run oracle state.inner).2 ∧
      x.transcript oracle.counting state = x.transcript oracle state.inner := by
  induction x generalizing state with
  | done value => exact ⟨rfl, rfl, rfl⟩
  | abandon misuse => exact ⟨rfl, rfl, rfl⟩
  | ask question next ih =>
      obtain ⟨hanswer, hinner⟩ := answer_counting oracle question state
      rcases hcounted : oracle.counting.answer question state with ⟨answer, counted⟩
      rw [hcounted] at hanswer hinner
      have hdirect : oracle.answer question state.inner = (answer, counted.inner) :=
        Prod.ext hanswer.symm hinner.symm
      rw [Dialogue.transcript, Dialogue.transcript, hcounted, hdirect]
      cases answer with
      | error misuse =>
          rw [Dialogue.run_ask_of_error hcounted, Dialogue.run_ask_of_error hdirect]
          exact ⟨rfl, rfl, rfl⟩
      | ok answer =>
          rw [Dialogue.run_ask_of_ok hcounted, Dialogue.run_ask_of_ok hdirect]
          obtain ⟨hvalue, hfinal, htranscript⟩ := ih answer counted
          exact ⟨hvalue, hfinal, congrArg (List.cons _) htranscript⟩

/-! ## Sessions -/

/-- What an oracle is used for, one thing after another. -/
inductive Activity (C : Type) where
  | diagnose (method : Method) (verify : Bool) (problem : Problem C)
  | check (kind : Kind) (problem : Problem C) {source : List C} (diagnosis : Diagnosis source)
  | isolate (constraints : List C)
  /-- The questions are counted from zero again. -/
  | reset

namespace Activity

/-- What an activity leads to, unless it is cut short by a misuse. -/
def Result : Activity C → Type
  | diagnose _ _ problem => Except DiagnosisError (Diagnosis problem.soft)
  | check .. => Except OracleError Bool
  | isolate _ => Except DiagnosisError (Option Fault)
  | reset => Unit

/-- What an activity says to the oracle. -/
def dialogue (A ι : Type) : (activity : Activity C) → Dialogue C A ι activity.Result
  | diagnose method verify problem => (method.diagnose verify problem).run
  | check kind problem diagnosis => (problem.isMinimal kind diagnosis).run
  | isolate constraints => (Fault.first? constraints).run
  | reset => .done ()

/-- Starts anew if the activity is a reset. -/
def restart (fresh : α → α) (x : α) : Activity C → α
  | reset => fresh x
  | _ => x

@[simp] theorem restart_id (x : α) (activity : Activity C) : activity.restart id x = x := by
  cases activity <;> rfl

end Activity

/-- The results of some activities in their order, and the state in which the oracle is left. -/
def session (oracle : Oracle σ C A ι) (fresh : σ → σ) :
    List (Activity C) → σ → List ((activity : Activity C) × Except Misuse activity.Result) × σ
  | [], state => ([], state)
  | activity :: rest, state =>
    let (result, state) := (activity.dialogue A ι).run oracle state
    let (results, final) := session oracle fresh rest (activity.restart fresh state)
    (⟨activity, result⟩ :: results, final)

/-- The exchanges since the last reset, if there were some before the session. -/
def exchangesSinceReset (oracle : Oracle σ C A ι) :
    List (Exchange C A ι) → List (Activity C) → σ → List (Exchange C A ι)
  | before, [], _ => before
  | before, activity :: rest, state =>
    let x := activity.dialogue A ι
    exchangesSinceReset oracle
      (activity.restart (fun _ => []) (before ++ x.transcript oracle state)) rest
      (x.run oracle state).2

/-- What happened before the session is part of what was counted. -/
theorem session_counting (oracle : Oracle σ C A ι) (activities : List (Activity C))
    {before : List (Exchange C A ι)} (state : Counted σ) (h : state.counts = cost before) :
    let direct := session oracle id activities state.inner
    let counted := session oracle.counting Counted.reset activities state
    counted.1 = direct.1 ∧ counted.2.inner = direct.2 ∧
      counted.2.counts = cost (exchangesSinceReset oracle before activities state.inner) := by
  induction activities generalizing before state with
  | nil => exact ⟨rfl, rfl, h⟩
  | cons activity rest ih =>
      let x := activity.dialogue A ι
      obtain ⟨hvalue, hinner, htranscript⟩ := run_counting oracle x state
      let next := activity.restart Counted.reset (x.run oracle.counting state).2
      have hnext : next.inner = (x.run oracle state.inner).2 := by
        rw [← hinner]
        cases activity <;> rfl
      have hcounts : next.counts =
          cost (activity.restart (fun _ => []) (before ++ x.transcript oracle state.inner)) := by
        have hrun : (x.run oracle.counting state).2.counts =
            cost (before ++ x.transcript oracle state.inner) := by
          rw [counts_run, htranscript, cost_append, h]
        cases activity with
        | reset => rfl
        | _ => exact hrun
      obtain ⟨hresults, hfinal, hcount⟩ := ih next hcounts
      rw [hnext] at hresults hfinal hcount
      simp only [session, Activity.restart_id]
      refine ⟨?_, hfinal, hcount⟩
      exact congrArg₂ List.cons (congrArg (Sigma.mk activity) hvalue) hresults

/-- An oracle that counts is used like the oracle inside it: all results are the same, in the same
order, and the oracle inside is left in the same state. What was counted are the questions for
verdicts and for optima that it was asked since the last reset, also those it did not answer. -/
theorem counting_is_transparent (oracle : Oracle σ C A ι) (activities : List (Activity C))
    (state : σ) :
    let direct := session oracle id activities state
    let counted := session oracle.counting Counted.reset activities { inner := state }
    counted.1 = direct.1 ∧ counted.2.inner = direct.2 ∧
      counted.2.counts = cost (exchangesSinceReset oracle [] activities state) := by
  exact session_counting oracle activities { inner := state } rfl

end Infeasibility
