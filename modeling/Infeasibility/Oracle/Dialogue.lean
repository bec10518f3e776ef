import Infeasibility.Oracle.Basic

/-!
# Dialogues

A dialogue with an oracle is a tree: it ends with a value, or is abandoned for a misuse, or asks a
question and continues according to the answer. It does not mention the oracle, so that what it
asks, and what it concludes from the answers, can be studied for all oracles at once.
-/

namespace Infeasibility

/-- Everything an oracle can be asked. -/
inductive Question (C ι : Type) where
  | solve (constraints : List C)
  | newIndicator
  | implication (indicator : ι) (constraint : C)
  | release (indicators : List ι)
  | supportsSoft
  | maximize (hard : List C) (soft : List (SoftTerm C ι))
  deriving Repr, DecidableEq

/-- The type of the answers to a question. -/
abbrev Question.Answer {C ι : Type} (A : Type) : Question C ι → Type
  | solve _ => Except OracleError (Outcome A)
  | newIndicator => ι
  | implication _ _ => C
  | release _ => Unit
  | supportsSoft => Bool
  | maximize _ _ => Except OracleError (Optimum A)

inductive Dialogue (C A ι α : Type) where
  | done (value : α)
  | abandon (misuse : Misuse)
  | ask (question : Question C ι) (next : question.Answer A → Dialogue C A ι α)

namespace Dialogue

variable {σ C A ι α β γ : Type}

/-! ### Sequencing -/

/-- Continues at every end of a dialogue. -/
def bind : Dialogue C A ι α → (α → Dialogue C A ι β) → Dialogue C A ι β
  | done value, f => f value
  | abandon misuse, _ => abandon misuse
  | ask question next, f => ask question fun answer => (next answer).bind f

instance : Monad (Dialogue C A ι) where
  pure := done
  bind := bind

@[simp] theorem pure_eq (value : α) : (pure value : Dialogue C A ι α) = done value := rfl

@[simp] theorem done_bind (value : α) (f : α → Dialogue C A ι β) :
    (done value : Dialogue C A ι α) >>= f = f value := rfl

@[simp] theorem abandon_bind (misuse : Misuse) (f : α → Dialogue C A ι β) :
    (abandon misuse : Dialogue C A ι α) >>= f = abandon misuse := rfl

@[simp] theorem ask_bind (question : Question C ι) (next : question.Answer A → Dialogue C A ι α)
    (f : α → Dialogue C A ι β) :
    ask question next >>= f = ask question fun answer => next answer >>= f := rfl

theorem bind_done (x : Dialogue C A ι α) : x >>= done = x := by
  induction x with
  | done value => rfl
  | abandon misuse => rfl
  | ask question next ih => exact congrArg (ask question) (funext ih)

theorem bind_assoc (x : Dialogue C A ι α) (f : α → Dialogue C A ι β) (g : β → Dialogue C A ι γ) :
    x >>= f >>= g = x >>= fun value => f value >>= g := by
  induction x with
  | done value => rfl
  | abandon misuse => rfl
  | ask question next ih => exact congrArg (ask question) (funext ih)

instance : LawfulMonad (Dialogue C A ι) :=
  LawfulMonad.mk' _ bind_done (fun _ _ => rfl) bind_assoc

/-! ### Single questions -/

def solve (constraints : List C) : Dialogue C A ι (Except OracleError (Outcome A)) :=
  ask (.solve constraints) done

def newIndicator : Dialogue C A ι ι :=
  ask .newIndicator done

def implication (indicator : ι) (constraint : C) : Dialogue C A ι C :=
  ask (.implication indicator constraint) done

def release (indicators : List ι) : Dialogue C A ι Unit :=
  ask (.release indicators) done

def supportsSoft : Dialogue C A ι Bool :=
  ask .supportsSoft done

def maximize (hard : List C) (soft : List (SoftTerm C ι)) :
    Dialogue C A ι (Except OracleError (Optimum A)) :=
  ask (.maximize hard soft) done

end Dialogue

/-! ### Conversations with an oracle -/

/-- The oracle's answer to any question. -/
def Oracle.answer {σ C A ι : Type} (oracle : Oracle σ C A ι) :
    (question : Question C ι) → Step σ (question.Answer A)
  | .solve constraints => oracle.solve constraints
  | .newIndicator => oracle.newIndicator
  | .implication indicator constraint => oracle.implication indicator constraint
  | .release indicators => oracle.release indicators
  | .supportsSoft => fun state => (.ok (oracle.supportsSoft state), state)
  | .maximize hard soft => oracle.maximize hard soft

/-- A question together with what came of it. -/
structure Exchange (C A ι : Type) where
  question : Question C ι
  answer : Except Misuse (question.Answer A)

namespace Dialogue

variable {σ C A ι α β : Type}

/-- Puts the questions of a dialogue to an oracle. -/
def run (oracle : Oracle σ C A ι) : Dialogue C A ι α → Step σ α
  | done value => pure value
  | abandon misuse => throw misuse
  | ask question next => do run oracle (next (← oracle.answer question))

/-- The exchanges of a dialogue with an oracle, from a given state on. -/
def transcript (oracle : Oracle σ C A ι) : Dialogue C A ι α → σ → List (Exchange C A ι)
  | done _, _ => []
  | abandon _, _ => []
  | ask question next, state =>
    match oracle.answer question state with
    | (.error misuse, _) => [⟨question, .error misuse⟩]
    | (.ok answer, state) => ⟨question, .ok answer⟩ :: transcript oracle (next answer) state

@[simp] theorem run_bind (oracle : Oracle σ C A ι) (x : Dialogue C A ι α)
    (f : α → Dialogue C A ι β) :
    (x >>= f).run oracle = x.run oracle >>= fun value => (f value).run oracle := by
  induction x with
  | done value => simp [run]
  | abandon misuse => rfl
  | ask question next ih => simp [run, ih]

end Dialogue

/-! ### Inquiries -/

/-- A dialogue that may end in an error. -/
abbrev Inquiry (C A ι ε : Type) := ExceptT ε (Dialogue C A ι)

namespace Inquiry

variable {C A ι ε α : Type}

/-- Abandons the inquiry. -/
def abandon (misuse : Misuse) : Inquiry C A ι ε α :=
  ExceptT.mk (.abandon misuse)

/-- The error of an oracle is the error of the inquiry. -/
def solve (constraints : List C) : Inquiry C A ι OracleError (Outcome A) :=
  ExceptT.mk (.solve constraints)

@[inherit_doc solve]
def maximize (hard : List C) (soft : List (SoftTerm C ι)) :
    Inquiry C A ι OracleError (Optimum A) :=
  ExceptT.mk (.maximize hard soft)

end Inquiry

end Infeasibility
