import Infeasibility.Proofs.FiniteDomain.ConstraintText

/-! # Constraints that read the same

The text of a constraint, with its variables by their numbers, determines what the constraint
evaluates to. It does not determine the constraint, since a connective cannot be seen if it connects
only one. -/

namespace Infeasibility.FiniteDomain

open Words

theorem map_eq_map_of_forall {α β γ : Type} {f : α → β} {g : α → γ} {xs ys : List α}
    (h : ∀ x ∈ xs, ∀ y, f x = f y → g x = g y) (hmap : xs.map f = ys.map f) :
    xs.map g = ys.map g := by
  induction xs generalizing ys with
  | nil => simp_all
  | cons x xs ih =>
      obtain ⟨hx, hxs⟩ := List.forall_mem_cons.mp h
      cases ys with
      | nil => simp at hmap
      | cons y ys =>
          rw [List.map_cons, List.map_cons, List.cons.injEq] at hmap
          rw [List.map_cons, List.map_cons, hx y hmap.1, ih hxs hmap.2]

theorem bracketed_injective : Function.Injective bracketed := by
  intro text text' h
  rw [bracketed, bracketed, String.append_left_inj, String.append_right_inj] at h
  exact h

theorem name_ne_bracketed (v : Var) (text : String) : v.name ≠ bracketed text := by
  intro h
  have hletters := congrArg String.toList h
  simp [Var.name, bracketed] at hletters

/-! ## Connected results -/

/-- The truth value of connected constraints, given theirs. -/
def Connective.combine (k : Connective) : List (Except EvalError Bool) → Except EvalError Bool
  | [] => .ok k.ofNone
  | [result] => result
  | result :: results => do
    match k with
    | and => if ← result then k.combine results else return false
    | or => if ← result then return true else k.combine results
    | implies => if ← result then k.combine results else return true

namespace Assignment

variable {a : Assignment}

theorem evalAll_eq_combine (cs : List Constraint) :
    a.evalAll cs = Connective.and.combine (cs.map a.eval) := by
  induction cs with
  | nil => rfl
  | cons c cs ih =>
      rw [evalAll, ih]
      cases cs with
      | nil => rcases h : a.eval c with error | _ | _ <;> simp [Connective.combine, h] <;> rfl
      | cons next cs => rfl

theorem evalAny_eq_combine (cs : List Constraint) :
    a.evalAny cs = Connective.or.combine (cs.map a.eval) := by
  induction cs with
  | nil => rfl
  | cons c cs ih =>
      rw [evalAny, ih]
      cases cs with
      | nil => rcases h : a.eval c with error | _ | _ <;> simp [Connective.combine, h] <;> rfl
      | cons next cs => rfl

theorem eval_eq_combine (c : Constraint) :
    a.eval c = c.connective.combine (c.operands.map a.eval) := by
  cases c with
  | all cs =>
      rw [eval]
      exact evalAll_eq_combine cs
  | any cs =>
      rw [eval]
      exact evalAny_eq_combine cs
  | implies p q =>
      rw [eval]
      rfl
  | _ => rfl

end Assignment

/-! ## Meaning -/

namespace Constraint

/-- Whatever reads the same as the constraint, as an operand or by itself, evaluates to the same. -/
structure IsUnambiguous (c : Constraint) : Prop where
  operand : ∀ d, c.operandWords = d.operandWords → ∀ a : Assignment, a.eval c = a.eval d
  text : ∀ d, c.text Var.name = d.text Var.name → ∀ a : Assignment, a.eval c = a.eval d

theorem eval_eq_of_text_eq_of_operands {c d : Constraint} {a : Assignment}
    (h : ∀ o ∈ c.operands, ∀ d, o.operandWords = d.operandWords → a.eval o = a.eval d)
    (htext : c.text Var.name = d.text Var.name) : a.eval c = a.eval d := by
  obtain ⟨hparts, hconnective⟩ := parts_eq_of_text_eq htext
  rw [Assignment.eval_eq_combine, Assignment.eval_eq_combine]
  by_cases hc : c.operands = []
  · obtain ⟨hd, hnone⟩ := operands_eq_nil_of_parts_eq hparts hc
    rw [hc, hd]
    exact congrArg Except.ok hnone
  · have hd : d.operands ≠ [] := fun hd => hc (operands_eq_nil_of_parts_eq hparts.symm hd).1
    rw [parts, if_neg hc, parts, if_neg hd] at hparts
    rw [← map_eq_map_of_forall h hparts]
    rcases hconnective with hconnective | hlength
    · rw [hconnective]
    · rw [parts, if_neg hc, List.length_map] at hlength
      obtain ⟨o, ho⟩ := List.length_eq_one_iff.mp hlength
      rw [ho]
      rfl

theorem isUnambiguous_of_single {c : Constraint} (hsingle : c.operands = [c])
    (h : ∀ d, c.operandWords = d.operandWords → ∀ a : Assignment, a.eval c = a.eval d) :
    c.IsUnambiguous := by
  refine ⟨h, fun d htext a => eval_eq_of_text_eq_of_operands ?_ htext⟩
  intro o ho d hwords
  rw [hsingle, List.mem_singleton] at ho
  subst ho
  exact h d hwords a

theorem isUnambiguous_of_operands {c : Constraint} (hbrackets : c.initial = '(')
    (h : ∀ o ∈ c.operands, o.IsUnambiguous) : c.IsUnambiguous := by
  have htext : ∀ d, c.text Var.name = d.text Var.name → ∀ a : Assignment, a.eval c = a.eval d :=
    fun d htext a => eval_eq_of_text_eq_of_operands (fun o ho d hd => (h o ho).operand d hd a) htext
  refine ⟨?_, htext⟩
  intro d hwords
  have hd : d.initial = '(' := by rw [← initial_eq_of_operandWords_eq hwords, hbrackets]
  rw [operandWords_of_initial hbrackets, operandWords_of_initial hd, List.singleton_inj] at hwords
  exact htext d (bracketed_injective hwords)

theorem eval_eq_of_asNegated_eq {c d : Constraint} {a : Assignment} (hc : c.IsUnambiguous)
    (h : c.asNegated (c.text Var.name) = d.asNegated (d.text Var.name)) : a.eval c = a.eval d := by
  rcases asNegated_eq c (c.text Var.name) with hnegated | ⟨v, rfl, hnegated⟩
  · rcases asNegated_eq d (d.text Var.name) with hnegated' | ⟨w, rfl, hnegated'⟩
    · rw [hnegated, hnegated'] at h
      exact hc.text d (bracketed_injective h) a
    · rw [hnegated, hnegated', text] at h
      exact absurd h.symm (name_ne_bracketed w _)
  · rcases asNegated_eq d (d.text Var.name) with hnegated' | ⟨w, rfl, hnegated'⟩
    · rw [hnegated, hnegated', text] at h
      exact absurd h (name_ne_bracketed v _)
    · rw [hnegated, hnegated'] at h
      exact hc.text (literal w) h a

theorem mapM_evalTerm_eq_of_listed_eq {ts us : List Term} {a : Assignment}
    (h : ", ".intercalate (ts.map (Term.text Var.name)) =
      ", ".intercalate (us.map (Term.text Var.name))) :
    ts.mapM a.evalTerm = us.mapM a.evalTerm := by
  have hitems : ∀ terms : List Term, ∀ text ∈ terms.map (Term.text Var.name), IsItem text := by
    intro terms text htext
    obtain ⟨t, -, rfl⟩ := List.mem_map.mp htext
    exact t.isItem_text
  have htexts := eq_of_listed_eq (hitems ts) (hitems us) h
  have hresults : ts.map a.evalTerm = us.map a.evalTerm :=
    map_eq_map_of_forall (fun _ _ _ htext => Assignment.evalTerm_eq_of_text_eq htext) htexts
  have hmapM : ∀ terms : List Term, terms.mapM a.evalTerm = (terms.map a.evalTerm).mapM id := by
    intro terms
    rw [List.mapM_map]
    rfl
  rw [hmapM, hmapM, hresults]

theorem isUnambiguous (c : Constraint) : c.IsUnambiguous := by
  induction c using Constraint.induction with
  | literal v =>
      apply isUnambiguous_of_single rfl
      intro d hwords a
      have hinitial := initial_eq_of_operandWords_eq hwords
      cases d with
      | literal w =>
          rw [Var.name_injective (List.singleton_inj.mp hwords)]
      | _ => simp [initial] at hinitial
  | compare op l r =>
      apply isUnambiguous_of_single rfl
      intro d hwords a
      have hinitial := initial_eq_of_operandWords_eq hwords
      cases d with
      | compare op' l' r' =>
          obtain ⟨hop, hl, hr⟩ := eq_of_comparison_eq hwords
          rw [Assignment.eval, Assignment.eval, hop, Assignment.evalTerm_eq_of_words_eq hl,
            Assignment.evalTerm_eq_of_words_eq hr]
      | _ => simp [initial] at hinitial
  | all cs ih => exact isUnambiguous_of_operands rfl ih
  | any cs ih => exact isUnambiguous_of_operands rfl ih
  | not c ih =>
      apply isUnambiguous_of_single rfl
      intro d hwords a
      have hinitial := initial_eq_of_operandWords_eq hwords
      cases d with
      | not d =>
          have hnegated := String.append_right_inj _ |>.mp (List.singleton_inj.mp hwords)
          rw [Assignment.eval, Assignment.eval, eval_eq_of_asNegated_eq ih hnegated]
      | _ => simp [initial] at hinitial
  | implies p q ihp ihq =>
      apply isUnambiguous_of_operands rfl
      simp [operands, ihp, ihq]
  | allDifferent ts =>
      apply isUnambiguous_of_single rfl
      intro d hwords a
      have hinitial := initial_eq_of_operandWords_eq hwords
      cases d with
      | allDifferent us =>
          have hlisted := String.append_right_inj _ |>.mp (List.singleton_inj.mp hwords)
          rw [Assignment.eval, Assignment.eval,
            mapM_evalTerm_eq_of_listed_eq (bracketed_injective hlisted)]
      | _ => simp [initial] at hinitial

end Constraint

/-- Constraints that read the same evaluate to the same, be it a truth value or an error, and so do
terms. -/
theorem eval_eq_of_same_text (a : Assignment) :
    (∀ c d : Constraint, c.text Var.name = d.text Var.name → a.eval c = a.eval d) ∧
      ∀ t u : Term, t.text Var.name = u.text Var.name → a.evalTerm t = a.evalTerm u :=
  ⟨fun c d h => c.isUnambiguous.text d h a, fun _ _ h => Assignment.evalTerm_eq_of_text_eq h⟩

/-- Neither a connective with a lone operand nor a negated constant can be told from another. -/
theorem eval_eq_of_same_text_of_lone_operand :
    let t : Term := .binary .div (.neg (.const 6)) (.var 0)
    let u : Term := .binary .div (.const (-6)) (.var 0)
    let c : Constraint := .not (.all [.compare .lt t (.const 0)])
    let d : Constraint := .not (.any [.compare .lt u (.const 0)])
    (t ≠ u ∧ t.text Var.name = u.text Var.name) ∧ (c ≠ d ∧ c.text Var.name = d.text Var.name) ∧
      ∀ a : Assignment, a.evalTerm t = a.evalTerm u ∧ a.eval c = a.eval d := by
  intro t u c d
  have hterms : t.text Var.name = u.text Var.name := by rfl
  have hconstraints : c.text Var.name = d.text Var.name := by rfl
  refine ⟨⟨by decide, hterms⟩, ⟨by decide, hconstraints⟩, fun a => ⟨?_, ?_⟩⟩
  · exact (eval_eq_of_same_text a).2 t u hterms
  · exact (eval_eq_of_same_text a).1 c d hconstraints

end Infeasibility.FiniteDomain
