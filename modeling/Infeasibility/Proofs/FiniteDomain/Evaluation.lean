import Infeasibility.FiniteDomain.Evaluation

/-! # Evaluation and variables

What a constraint evaluates to depends on the values of its own variables only. Evaluation fails for
want of a value only at one of them, and not at all if they all have values. -/

namespace Infeasibility.FiniteDomain.Assignment

/-! ## Dependence on variables -/

theorem evalTerm_congr {a b : Assignment} {t : Term}
    (h : ∀ v ∈ t.vars, a.value? v = b.value? v) : a.evalTerm t = b.evalTerm t := by
  induction t with
  | const value => rfl
  | var v => rw [evalTerm, evalTerm, read, read, h v (by simp [Term.vars])]
  | neg t ih => rw [evalTerm, evalTerm, ih h]
  | binary op l r ihl ihr =>
      obtain ⟨hl, hr⟩ := List.forall_mem_append.mp h
      rw [evalTerm, evalTerm, ihl hl, ihr hr]

theorem mapM_evalTerm_congr {a b : Assignment} {ts : List Term}
    (h : ∀ v ∈ ts.flatMap Term.vars, a.value? v = b.value? v) :
    ts.mapM a.evalTerm = ts.mapM b.evalTerm := by
  induction ts with
  | nil => rfl
  | cons t ts ih =>
      rw [List.flatMap_cons] at h
      obtain ⟨ht, hts⟩ := List.forall_mem_append.mp h
      rw [List.mapM_cons, List.mapM_cons, evalTerm_congr ht, ih hts]

mutual

theorem eval_congr {a b : Assignment} :
    ∀ {c : Constraint}, (∀ v ∈ c.vars, a.value? v = b.value? v) → a.eval c = b.eval c
  | .literal v, h => by rw [eval, eval, isTrue, isTrue, read, read, h v (by simp [Constraint.vars])]
  | .compare op l r, h => by
      rw [Constraint.vars] at h
      obtain ⟨hl, hr⟩ := List.forall_mem_append.mp h
      rw [eval, eval, evalTerm_congr hl, evalTerm_congr hr]
  | .all cs, h => by rw [eval, eval, evalAll_congr h]
  | .any cs, h => by rw [eval, eval, evalAny_congr h]
  | .not c, h => by
      have hc : ∀ v ∈ c.vars, a.value? v = b.value? v := h
      rw [eval, eval, eval_congr hc]
  | .implies p q, h => by
      rw [Constraint.vars] at h
      obtain ⟨hp, hq⟩ := List.forall_mem_append.mp h
      rw [eval, eval, eval_congr hp, eval_congr hq]
  | .allDifferent ts, h => by rw [eval, eval, mapM_evalTerm_congr h]

theorem evalAll_congr {a b : Assignment} :
    ∀ {cs : List Constraint}, (∀ v ∈ Constraint.varsOfAll cs, a.value? v = b.value? v) →
      a.evalAll cs = b.evalAll cs
  | [], _ => rfl
  | c :: cs, h => by
      rw [Constraint.varsOfAll] at h
      obtain ⟨hc, hcs⟩ := List.forall_mem_append.mp h
      rw [evalAll, evalAll, eval_congr hc, evalAll_congr hcs]

theorem evalAny_congr {a b : Assignment} :
    ∀ {cs : List Constraint}, (∀ v ∈ Constraint.varsOfAll cs, a.value? v = b.value? v) →
      a.evalAny cs = b.evalAny cs
  | [], _ => rfl
  | c :: cs, h => by
      rw [Constraint.varsOfAll] at h
      obtain ⟨hc, hcs⟩ := List.forall_mem_append.mp h
      rw [evalAny, evalAny, eval_congr hc, evalAny_congr hcs]

end

/-! ## Missing values -/

section

variable {α β : Type} {a : Assignment} {vars : List Var} {result : Except EvalError α}

/-- If the result is the error of a variable without a value, then this is one of the given
variables, and the assignment gives it no value. -/
def MissesOnly (a : Assignment) (vars : List Var) (result : Except EvalError α) : Prop :=
  ∀ v, result = .error (.unassigned v) → v ∈ vars ∧ a.value? v = none

theorem missesOnly_ok (value : α) : a.MissesOnly vars (.ok value) := by
  simp [MissesOnly]

theorem MissesOnly.mono {others : List Var} (h : a.MissesOnly vars result)
    (hsubset : vars ⊆ others) : a.MissesOnly others result := by
  intro v hresult
  obtain ⟨hmem, hnone⟩ := h v hresult
  exact ⟨hsubset hmem, hnone⟩

theorem MissesOnly.append_left (others : List Var) (h : a.MissesOnly vars result) :
    a.MissesOnly (vars ++ others) result :=
  h.mono (List.subset_append_left vars others)

theorem MissesOnly.append_right (others : List Var) (h : a.MissesOnly vars result) :
    a.MissesOnly (others ++ vars) result :=
  h.mono (List.subset_append_right others vars)

theorem MissesOnly.bind {f : α → Except EvalError β} (h : a.MissesOnly vars result)
    (hf : ∀ value, a.MissesOnly vars (f value)) : a.MissesOnly vars (result >>= f) := by
  cases result with
  | error e => exact fun v hv => h v (congrArg Except.error (Except.error.inj hv))
  | ok value => exact hf value

theorem MissesOnly.mapM {f : β → Except EvalError α} {xs : List β}
    (h : ∀ x ∈ xs, a.MissesOnly vars (f x)) : a.MissesOnly vars (xs.mapM f) := by
  induction xs with
  | nil => exact missesOnly_ok []
  | cons x xs ih =>
      obtain ⟨hx, hxs⟩ := List.forall_mem_cons.mp h
      rw [List.mapM_cons]
      exact hx.bind fun _ => (ih hxs).bind fun _ => missesOnly_ok _

theorem missesOnly_checked (n : Int) : a.MissesOnly vars (checked n) := by
  rw [checked]
  split <;> simp [MissesOnly]

theorem missesOnly_apply (op : Operator) (l r : Int64) : a.MissesOnly vars (op.apply l r) := by
  cases op with
  | add => exact missesOnly_checked _
  | sub => exact missesOnly_checked _
  | mul => exact missesOnly_checked _
  | div =>
      rw [Operator.apply]
      split
      · simp [MissesOnly]
      · exact missesOnly_checked _
  | rem =>
      rw [Operator.apply]
      split
      · simp [MissesOnly]
      · exact (missesOnly_checked _).bind fun _ => missesOnly_checked _

end

theorem missesOnly_read (a : Assignment) (v : Var) : a.MissesOnly [v] (a.read v) := by
  intro w hw
  rw [read] at hw
  split at hw
  · cases hw
  · cases hw
    exact ⟨List.mem_singleton_self v, ‹_›⟩

theorem missesOnly_evalTerm (a : Assignment) (t : Term) : a.MissesOnly t.vars (a.evalTerm t) := by
  induction t with
  | const value => exact missesOnly_ok _
  | var v => exact (a.missesOnly_read v).bind fun _ => missesOnly_ok _
  | neg t ih => exact ih.bind fun _ => missesOnly_checked _
  | binary op l r ihl ihr =>
      exact (ihl.append_left r.vars).bind fun _ => (ihr.append_right l.vars).bind fun _ =>
        missesOnly_apply op _ _

mutual

theorem missesOnly_eval (a : Assignment) : ∀ c : Constraint, a.MissesOnly c.vars (a.eval c)
  | .literal v => (a.missesOnly_read v).bind fun _ => missesOnly_ok _
  | .compare _ l r =>
      ((a.missesOnly_evalTerm l).append_left r.vars).bind fun _ =>
        ((a.missesOnly_evalTerm r).append_right l.vars).bind fun _ => missesOnly_ok _
  | .all cs => a.missesOnly_evalAll cs
  | .any cs => a.missesOnly_evalAny cs
  | .not c => (a.missesOnly_eval c).bind fun _ => missesOnly_ok _
  | .implies p q => by
      refine ((a.missesOnly_eval p).append_left q.vars).bind fun premise => ?_
      cases premise with
      | false => exact missesOnly_ok _
      | true => exact (a.missesOnly_eval q).append_right p.vars
  | .allDifferent ts => by
      refine (MissesOnly.mapM fun t ht => ?_).bind fun _ => missesOnly_ok _
      exact (a.missesOnly_evalTerm t).mono fun v hv => List.mem_flatMap.mpr ⟨t, ht, hv⟩

theorem missesOnly_evalAll (a : Assignment) :
    ∀ cs : List Constraint, a.MissesOnly (Constraint.varsOfAll cs) (a.evalAll cs)
  | [] => missesOnly_ok _
  | c :: cs => by
      refine ((a.missesOnly_eval c).append_left _).bind fun truth => ?_
      cases truth with
      | false => exact missesOnly_ok _
      | true => exact (a.missesOnly_evalAll cs).append_right c.vars

theorem missesOnly_evalAny (a : Assignment) :
    ∀ cs : List Constraint, a.MissesOnly (Constraint.varsOfAll cs) (a.evalAny cs)
  | [] => missesOnly_ok _
  | c :: cs => by
      refine ((a.missesOnly_eval c).append_left _).bind fun truth => ?_
      cases truth with
      | false => exact (a.missesOnly_evalAny cs).append_right c.vars
      | true => exact missesOnly_ok _

end

/-- The result is not the error of a variable without a value. -/
def NoneMissing {α : Type} (result : Except EvalError α) : Prop :=
  ∀ v, result ≠ .error (.unassigned v)

theorem noneMissing_eval {a : Assignment} {c : Constraint}
    (h : ∀ v ∈ c.vars, (a.value? v).isSome) : NoneMissing (a.eval c) := by
  intro v hv
  obtain ⟨hmem, hnone⟩ := a.missesOnly_eval c v hv
  have hsome := h v hmem
  rw [hnone] at hsome
  cases hsome

end Infeasibility.FiniteDomain.Assignment
