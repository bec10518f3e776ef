import Infeasibility.Ascending
import Infeasibility.FiniteDomain.Model

/-!
# Terms and constraints

Arithmetic terms, comparisons and propositional connectives over variables. A constraint is data:
its variables can be listed, and two constraints can be compared for equality.
-/

namespace Infeasibility.FiniteDomain

inductive Operator where
  | add
  | sub
  | mul
  /-- Division, rounding towards zero. -/
  | div
  /-- The remainder of that division. -/
  | rem
  deriving Repr, DecidableEq

inductive Term where
  | const (value : Int32)
  | var (var : Var)
  | neg (term : Term)
  | binary (operator : Operator) (left right : Term)
  deriving Repr, DecidableEq

inductive Comparison where
  | eq
  | ne
  | lt
  | le
  | gt
  | ge
  deriving Repr, DecidableEq

inductive Constraint where
  /-- The variable is not 0. -/
  | literal (var : Var)
  | compare (comparison : Comparison) (left right : Term)
  | all (conjuncts : List Constraint)
  | any (disjuncts : List Constraint)
  | not (constraint : Constraint)
  | implies (premise conclusion : Constraint)
  /-- No two terms have the same value. -/
  | allDifferent (terms : List Term)
  deriving Repr

/-! ### Variables -/

/-- The variables of a term, as often as they occur. -/
def Term.vars : Term → List Var
  | const _ => []
  | var v => [v]
  | neg t => t.vars
  | binary _ l r => l.vars ++ r.vars

namespace Constraint

mutual

/-- The variables of a constraint, as often as they occur. -/
def vars : Constraint → List Var
  | literal v => [v]
  | compare _ l r => l.vars ++ r.vars
  | all cs => varsOfAll cs
  | any cs => varsOfAll cs
  | not c => c.vars
  | implies a b => a.vars ++ b.vars
  | allDifferent ts => ts.flatMap Term.vars

@[inherit_doc vars]
def varsOfAll : List Constraint → List Var
  | [] => []
  | c :: cs => c.vars ++ varsOfAll cs

end

theorem varsOfAll_eq_flatMap (cs : List Constraint) : varsOfAll cs = cs.flatMap vars := by
  induction cs with
  | nil => rfl
  | cons c cs ih => rw [varsOfAll, List.flatMap_cons, ih]

/-- The variables that occur in some constraints, in increasing order. -/
def scope (constraints : List Constraint) : List Var :=
  Ascending.ofList (varsOfAll constraints)

/-! ### Induction -/

/-- What holds of a constraint if it holds of all constraints that it connects holds of them all. -/
@[elab_as_elim]
theorem induction {motive : Constraint → Prop} (literal : ∀ v, motive (literal v))
    (compare : ∀ op l r, motive (compare op l r))
    (all : ∀ cs, (∀ c ∈ cs, motive c) → motive (all cs))
    (any : ∀ cs, (∀ c ∈ cs, motive c) → motive (any cs))
    (not : ∀ c, motive c → motive (not c))
    (implies : ∀ p q, motive p → motive q → motive (implies p q))
    (allDifferent : ∀ ts, motive (allDifferent ts)) (c : Constraint) : motive c :=
  match c with
  | .literal v => literal v
  | .compare op l r => compare op l r
  | .all cs => all cs fun c _ => induction literal compare all any not implies allDifferent c
  | .any cs => any cs fun c _ => induction literal compare all any not implies allDifferent c
  | .not c => not c (induction literal compare all any not implies allDifferent c)
  | .implies p q =>
    implies p q (induction literal compare all any not implies allDifferent p)
      (induction literal compare all any not implies allDifferent q)
  | .allDifferent ts => allDifferent ts
termination_by sizeOf c

/-! ### Equality -/

mutual

/-- Whether two constraints are written the same way. -/
def same : Constraint → Constraint → Bool
  | literal v, literal w => v == w
  | compare op l r, compare op' l' r' => op = op' && l = l' && r = r'
  | all cs, all ds => sameList cs ds
  | any cs, any ds => sameList cs ds
  | not c, not d => same c d
  | implies a b, implies c d => same a c && same b d
  | allDifferent ts, allDifferent us => ts = us
  | _, _ => false

@[inherit_doc same]
def sameList : List Constraint → List Constraint → Bool
  | [], [] => true
  | c :: cs, d :: ds => same c d && sameList cs ds
  | _, _ => false

end

mutual

theorem same_iff : ∀ c d : Constraint, same c d ↔ c = d
  | literal v, d => by cases d <;> simp [same]
  | compare op l r, d => by cases d <;> simp [same, and_assoc]
  | all cs, d => by cases d <;> simp [same, sameList_iff cs]
  | any cs, d => by cases d <;> simp [same, sameList_iff cs]
  | not c, d => by cases d <;> simp [same, same_iff c]
  | implies a b, d => by cases d <;> simp [same, same_iff a, same_iff b]
  | allDifferent ts, d => by cases d <;> simp [same]

theorem sameList_iff : ∀ cs ds : List Constraint, sameList cs ds ↔ cs = ds
  | [], ds => by cases ds <;> simp [sameList]
  | c :: cs, ds => by cases ds <;> simp [sameList, same_iff c, sameList_iff cs]

end

instance : DecidableEq Constraint :=
  fun c d => decidable_of_iff _ (same_iff c d)

end Constraint

end Infeasibility.FiniteDomain
