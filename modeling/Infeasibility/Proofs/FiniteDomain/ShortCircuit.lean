import Infeasibility.Proofs.FiniteDomain.Evaluation
import Infeasibility.Proofs.Results
import Mathlib.Data.List.Nodup

/-! # Short-circuit evaluation

Connectives are classical, and atoms are what they connect. Evaluation from left to right skips
operands, and with them errors, but what it finds is the classical truth value whatever the atoms
with an error are taken to be. It finds one unless it meets an error, which is that of an atom. -/

namespace Infeasibility.FiniteDomain

/-! ## Distinct words -/

/-- Of sorted words none is left out exactly if none is repeated. -/
theorem length_eraseReps_loop (word : Int64) (words kept : List Int64)
    (hsorted : (word :: words).Pairwise (· ≤ ·)) :
    (List.eraseRepsBy.loop (· == ·) word words kept).length ≤ kept.length + words.length + 1 ∧
      ((List.eraseRepsBy.loop (· == ·) word words kept).length = kept.length + words.length + 1 ↔
        (word :: words).Nodup) := by
  induction words generalizing word kept with
  | nil => simp [List.eraseRepsBy.loop]
  | cons next words ih =>
      obtain ⟨hword, hwords⟩ := List.pairwise_cons.mp hsorted
      rw [List.eraseRepsBy.loop, List.nodup_cons]
      by_cases h : word = next
      · have hrest : (word :: words).Pairwise (· ≤ ·) := h ▸ hwords
        obtain ⟨hle, -⟩ := ih word kept hrest
        simp only [h, beq_self_eq_true, List.length_cons] at hle ⊢
        refine ⟨by omega, iff_of_false (by omega) ?_⟩
        rintro ⟨hmem, -⟩
        exact hmem List.mem_cons_self
      · obtain ⟨hle, hiff⟩ := ih next (word :: kept) hwords
        have hnext : word < next := Int64.lt_of_le_of_ne (hword next List.mem_cons_self) h
        have hmem : word ∉ next :: words := by
          intro hmem
          rcases List.mem_cons.mp hmem with rfl | hmem
          · exact h rfl
          · have hle := (List.pairwise_cons.mp hwords).1 word hmem
            exact Int64.lt_irrefl (Int64.lt_of_lt_of_le hnext hle)
        simp only [beq_eq_false_iff_ne.mpr h, List.length_cons] at hle hiff ⊢
        refine ⟨by omega, ?_⟩
        rw [← hiff, and_iff_right hmem]
        omega

theorem length_eraseReps_eq_iff {words : List Int64} (hsorted : words.Pairwise (· ≤ ·)) :
    words.eraseReps.length = words.length ↔ words.Nodup := by
  cases words with
  | nil => simp [List.eraseReps, List.eraseRepsBy]
  | cons word words =>
      have hiff := (length_eraseReps_loop word words [] hsorted).2
      simpa [List.eraseReps, List.eraseRepsBy] using hiff

theorem areDistinct_iff (words : List Int64) : areDistinct words = true ↔ words.Nodup := by
  have hperm : words.mergeSort.Perm words := List.mergeSort_perm words _
  have hsorted : words.mergeSort.Pairwise (· ≤ ·) := by
    have htrans : ∀ a b c : Int64, decide (a ≤ b) = true → decide (b ≤ c) = true →
        decide (a ≤ c) = true := by
      intro a b c hab hbc
      exact decide_eq_true (Int64.le_trans (of_decide_eq_true hab) (of_decide_eq_true hbc))
    have htotal : ∀ a b : Int64, (decide (a ≤ b) || decide (b ≤ a)) = true := by
      intro a b
      simpa using Int64.le_total a b
    simpa using List.pairwise_mergeSort htrans htotal words
  rw [areDistinct, decide_eq_true_eq, ← hperm.length_eq, length_eraseReps_eq_iff hsorted,
    hperm.nodup_iff]

/-! ## Atoms -/

/-- A constraint without connectives. -/
inductive Atom where
  | literal (var : Var)
  | compare (comparison : Comparison) (left right : Term)
  | allDifferent (terms : List Term)

def Atom.constraint : Atom → Constraint
  | literal v => .literal v
  | compare op l r => .compare op l r
  | allDifferent ts => .allDifferent ts

/-- The relation between integers. -/
def Comparison.Relates (comparison : Comparison) (left right : Int) : Prop :=
  match comparison with
  | eq => left = right
  | ne => left ≠ right
  | lt => left < right
  | le => left ≤ right
  | gt => left > right
  | ge => left ≥ right

theorem Comparison.holds_iff (op : Comparison) (left right : Int64) :
    op.holds left right = true ↔ op.Relates left.toInt right.toInt := by
  cases op <;>
    simp [holds, Relates, Int64.toInt_inj, Int64.lt_iff_toInt_lt, Int64.le_iff_toInt_le]

namespace Assignment

/-- The atom raises the error. -/
def Raises (a : Assignment) (atom : Atom) (error : EvalError) : Prop :=
  a.eval atom.constraint = .error error

/-- The atom is true of the values of its variable or of its terms, which exist. -/
def Meets (a : Assignment) : Atom → Prop
  | .literal v => ∃ value, a.value? v = some value ∧ value ≠ 0
  | .compare op l r =>
    ∃ left right, a.evalTerm l = .ok left ∧ a.evalTerm r = .ok right ∧
      op.Relates left.toInt right.toInt
  | .allDifferent ts => ∃ values, ts.mapM a.evalTerm = .ok values ∧ values.Pairwise (· ≠ ·)

/-- The truth of the atoms, where those that raise an error are as true as one likes. -/
def complete (a : Assignment) (choice : Atom → Prop) (atom : Atom) : Prop :=
  match a.eval atom.constraint with
  | .ok _ => a.Meets atom
  | .error _ => choice atom

end Assignment

/-! ## Classical truth -/

namespace Constraint

mutual

/-- The atoms of a constraint, as often as they occur. -/
def atoms : Constraint → List Atom
  | literal v => [.literal v]
  | compare op l r => [.compare op l r]
  | all cs => atomsOfAll cs
  | any cs => atomsOfAll cs
  | not c => c.atoms
  | implies p q => p.atoms ++ q.atoms
  | allDifferent ts => [.allDifferent ts]

@[inherit_doc atoms]
def atomsOfAll : List Constraint → List Atom
  | [] => []
  | c :: cs => c.atoms ++ atomsOfAll cs

end

theorem mem_atomsOfAll_iff {atom : Atom} {cs : List Constraint} :
    atom ∈ atomsOfAll cs ↔ ∃ c ∈ cs, atom ∈ c.atoms := by
  induction cs with
  | nil => simp [atomsOfAll]
  | cons c cs ih => simp [atomsOfAll, ih]

mutual

/-- The classical truth of a constraint, given that of the atoms. -/
def Holds (truth : Atom → Prop) : Constraint → Prop
  | literal v => truth (.literal v)
  | compare op l r => truth (.compare op l r)
  | all cs => HoldsAll truth cs
  | any cs => HoldsAny truth cs
  | not c => ¬ c.Holds truth
  | implies p q => p.Holds truth → q.Holds truth
  | allDifferent ts => truth (.allDifferent ts)

/-- All constraints are true. -/
def HoldsAll (truth : Atom → Prop) : List Constraint → Prop
  | [] => True
  | c :: cs => c.Holds truth ∧ HoldsAll truth cs

/-- Some constraint is true. -/
def HoldsAny (truth : Atom → Prop) : List Constraint → Prop
  | [] => False
  | c :: cs => c.Holds truth ∨ HoldsAny truth cs

end

theorem holdsAll_iff (truth : Atom → Prop) (cs : List Constraint) :
    HoldsAll truth cs ↔ ∀ c ∈ cs, c.Holds truth := by
  induction cs with
  | nil => simp [HoldsAll]
  | cons c cs ih => simp [HoldsAll, ih]

theorem holdsAny_iff (truth : Atom → Prop) (cs : List Constraint) :
    HoldsAny truth cs ↔ ∃ c ∈ cs, c.Holds truth := by
  induction cs with
  | nil => simp [HoldsAny]
  | cons c cs ih => simp [HoldsAny, ih]

end Constraint

namespace Assignment

variable {a : Assignment} {c : Constraint} {cs : List Constraint} {atom : Atom}
  {error : EvalError} {truth : Bool} {meaning : Constraint → Prop}

/-! ## Evaluation of atoms -/

theorem isTrue_eq_ok_iff {v : Var} :
    a.isTrue v = .ok truth ↔ ∃ value, a.value? v = some value ∧ decide (value ≠ 0) = truth := by
  rw [isTrue, read]
  cases a.value? v with
  | none => simp [bind, Except.bind]
  | some value => simp [bind, Except.bind, pure, Except.pure]

/-- An atom that evaluates to a truth value has it. -/
theorem meets_of_eval (h : a.eval atom.constraint = .ok truth) :
    truth = true ↔ a.Meets atom := by
  cases atom with
  | literal v =>
      rw [Atom.constraint, eval] at h
      obtain ⟨value, hvalue, rfl⟩ := isTrue_eq_ok_iff.mp h
      simp [Meets, hvalue]
  | compare op l r =>
      rw [Atom.constraint, eval] at h
      obtain ⟨left, hleft, h⟩ := bind_eq_ok_iff.mp h
      obtain ⟨right, hright, h⟩ := bind_eq_ok_iff.mp h
      cases h
      simp [Meets, hleft, hright, Comparison.holds_iff]
  | allDifferent ts =>
      rw [Atom.constraint, eval] at h
      obtain ⟨values, hvalues, h⟩ := bind_eq_ok_iff.mp h
      cases h
      simp [Meets, hvalues, areDistinct_iff, List.Nodup]

theorem complete_of_eval (atom : Atom) (choice : Atom → Prop)
    (h : a.eval atom.constraint = .ok truth) : truth = true ↔ a.complete choice atom := by
  rw [complete, h]
  exact meets_of_eval h

/-- If the errors are completed by what is true anyway, nothing is changed. -/
theorem complete_meets (a : Assignment) : a.complete a.Meets = a.Meets := by
  funext atom
  rw [complete]
  split <;> rfl

/-! ## Evaluation of lists -/

theorem evalAll_eq_ok (hcs : ∀ c ∈ cs, ∀ truth, a.eval c = .ok truth → (truth = true ↔ meaning c))
    (h : a.evalAll cs = .ok truth) : truth = true ↔ ∀ c ∈ cs, meaning c := by
  induction cs with
  | nil =>
      cases h
      simp
  | cons c cs ih =>
      obtain ⟨hc, hcs⟩ := List.forall_mem_cons.mp hcs
      rw [evalAll] at h
      obtain ⟨first, hfirst, h⟩ := bind_eq_ok_iff.mp h
      have hmeaning := hc first hfirst
      rw [List.forall_mem_cons, ← hmeaning]
      cases first with
      | false =>
          cases h
          simp
      | true => simpa using ih hcs h

theorem evalAny_eq_ok (hcs : ∀ c ∈ cs, ∀ truth, a.eval c = .ok truth → (truth = true ↔ meaning c))
    (h : a.evalAny cs = .ok truth) : truth = true ↔ ∃ c ∈ cs, meaning c := by
  induction cs with
  | nil =>
      cases h
      simp
  | cons c cs ih =>
      obtain ⟨hc, hcs⟩ := List.forall_mem_cons.mp hcs
      rw [evalAny] at h
      obtain ⟨first, hfirst, h⟩ := bind_eq_ok_iff.mp h
      have hmeaning := hc first hfirst
      rw [List.exists_mem_cons_iff, ← hmeaning]
      cases first with
      | false => simpa using ih hcs h
      | true =>
          cases h
          simp

theorem exists_of_evalAll_eq_error (h : a.evalAll cs = .error error) :
    ∃ c ∈ cs, a.eval c = .error error := by
  induction cs with
  | nil => cases h
  | cons c cs ih =>
      rw [evalAll] at h
      rw [List.exists_mem_cons_iff]
      rcases bind_eq_error_iff.mp h with hc | ⟨first, -, h⟩
      · exact .inl hc
      · cases first with
        | false => cases h
        | true => exact .inr (ih h)

theorem exists_of_evalAny_eq_error (h : a.evalAny cs = .error error) :
    ∃ c ∈ cs, a.eval c = .error error := by
  induction cs with
  | nil => cases h
  | cons c cs ih =>
      rw [evalAny] at h
      rw [List.exists_mem_cons_iff]
      rcases bind_eq_error_iff.mp h with hc | ⟨first, -, h⟩
      · exact .inl hc
      · cases first with
        | false => exact .inr (ih h)
        | true => cases h

/-! ## Evaluation of constraints -/

/-- What evaluation finds is the classical truth under every completion. -/
theorem holds_of_eval (choice : Atom → Prop) (h : a.eval c = .ok truth) :
    truth = true ↔ c.Holds (a.complete choice) := by
  induction c using Constraint.induction generalizing truth with
  | literal v => exact complete_of_eval (.literal v) choice h
  | compare op l r => exact complete_of_eval (.compare op l r) choice h
  | all cs ih =>
      rw [Constraint.Holds, Constraint.holdsAll_iff]
      exact evalAll_eq_ok (fun c hc truth => ih c hc) h
  | any cs ih =>
      rw [Constraint.Holds, Constraint.holdsAny_iff]
      exact evalAny_eq_ok (fun c hc truth => ih c hc) h
  | not c ih =>
      rw [eval] at h
      obtain ⟨inner, hinner, h⟩ := bind_eq_ok_iff.mp h
      cases h
      rw [Constraint.Holds, ← ih hinner]
      simp
  | implies p q ihp ihq =>
      rw [eval] at h
      obtain ⟨premise, hpremise, h⟩ := bind_eq_ok_iff.mp h
      rw [Constraint.Holds, ← ihp hpremise]
      cases premise with
      | false =>
          cases h
          simp
      | true =>
          rw [← ihq h]
          simp
  | allDifferent ts => exact complete_of_eval (.allDifferent ts) choice h

/-- An error that evaluation meets is raised by an atom. -/
theorem exists_raises_of_eval (h : a.eval c = .error error) :
    ∃ atom ∈ c.atoms, a.Raises atom error := by
  induction c using Constraint.induction with
  | literal v => exact ⟨.literal v, by simp [Constraint.atoms], h⟩
  | compare op l r => exact ⟨.compare op l r, by simp [Constraint.atoms], h⟩
  | all cs ih =>
      obtain ⟨c, hc, herror⟩ := exists_of_evalAll_eq_error h
      obtain ⟨atom, hatom, hraises⟩ := ih c hc herror
      exact ⟨atom, Constraint.mem_atomsOfAll_iff.mpr ⟨c, hc, hatom⟩, hraises⟩
  | any cs ih =>
      obtain ⟨c, hc, herror⟩ := exists_of_evalAny_eq_error h
      obtain ⟨atom, hatom, hraises⟩ := ih c hc herror
      exact ⟨atom, Constraint.mem_atomsOfAll_iff.mpr ⟨c, hc, hatom⟩, hraises⟩
  | not c ih =>
      rw [eval] at h
      rcases bind_eq_error_iff.mp h with herror | ⟨inner, -, h⟩
      · exact ih herror
      · cases h
  | implies p q ihp ihq =>
      rw [eval] at h
      rcases bind_eq_error_iff.mp h with herror | ⟨premise, -, h⟩
      · obtain ⟨atom, hatom, hraises⟩ := ihp herror
        exact ⟨atom, List.mem_append_left _ hatom, hraises⟩
      · cases premise with
        | false => cases h
        | true =>
            obtain ⟨atom, hatom, hraises⟩ := ihq h
            exact ⟨atom, List.mem_append_right _ hatom, hraises⟩
  | allDifferent ts => exact ⟨.allDifferent ts, by simp [Constraint.atoms], h⟩

/-- The classical meaning of evaluation. What it finds is the classical truth value, whatever the
atoms that raise an error are taken to be. If no atom raises an error it finds the truth value, and
the only errors that it reports are those of atoms. -/
theorem eval_classical (a : Assignment) (c : Constraint) :
    (∀ truth, a.eval c = .ok truth → ∀ choice, truth = true ↔ c.Holds (a.complete choice)) ∧
    ((∀ atom ∈ c.atoms, ∀ error, ¬ a.Raises atom error) →
      ∃ truth, a.eval c = .ok truth ∧ (truth = true ↔ c.Holds a.Meets)) ∧
    ∀ error, a.eval c = .error error → ∃ atom ∈ c.atoms, a.Raises atom error := by
  refine ⟨fun truth h choice => holds_of_eval choice h, ?_, fun error => exists_raises_of_eval⟩
  intro hnone
  cases heval : a.eval c with
  | error error =>
      obtain ⟨atom, hatom, hraises⟩ := exists_raises_of_eval heval
      exact absurd hraises (hnone atom hatom error)
  | ok truth =>
      have hholds := holds_of_eval a.Meets heval
      rw [complete_meets] at hholds
      exact ⟨truth, rfl, hholds⟩

/-- The conjunction is false as soon as its first conjunct is. The division by zero in the second
one makes no difference, whatever it is taken to be. -/
theorem eval_classical_of_skipped_division :
    let a : Assignment := ⟨#[0, 1]⟩
    let division : Atom := .compare .gt (.binary .rem (.const 5) (.var 0)) (.const 2)
    let c : Constraint := .all [.not (.literal 1), division.constraint]
    a.Raises division .divisionByZero ∧ a.eval c = .ok false ∧
      ∀ choice, ¬ c.Holds (a.complete choice) := by
  intro a division c
  have hraises : a.Raises division .divisionByZero := rfl
  have heval : a.eval c = .ok false := rfl
  refine ⟨hraises, heval, ?_⟩
  intro choice hholds
  have htruth := ((eval_classical a c).1 false heval choice).mpr hholds
  cases htruth

end Assignment

end Infeasibility.FiniteDomain
