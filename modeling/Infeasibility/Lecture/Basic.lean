import Infeasibility.FiniteDomain.Solver
import Infeasibility.Problem

/-!
# Lectures

Small models that have no solution, each for another reason, as they are shown in lectures on
constraint programming.
-/

namespace Infeasibility

open FiniteDomain

/-- A model with its constraints, and the variables that are shown of a solution. -/
structure Lesson where
  title : String
  model : Model
  shown : List Var
  problem : Problem Constraint

/-- The lectures, in the order in which they are held. -/
inductive Lecture where
  /-- A variable that must and must not be 3. -/
  | conflict
  /-- Two propositions that are true, and an implication that forbids it. -/
  | implication
  /-- A graph that three colours are too few for. -/
  | colouring
  /-- A constraint that divides by zero. -/
  | bugged
  deriving Repr, DecidableEq

namespace Lecture

def all : List Lecture :=
  [conflict, implication, colouring, bugged]

/-- Two variables have different values. -/
def differ (v w : Var) : Constraint :=
  .compare .ne (.var v) (.var w)

def conflictLesson : Lesson where
  title := "conflict"
  model := ⟨#[⟨"x", -2, 5, by decide⟩]⟩
  shown := [0]
  problem := {
    soft := [.compare .ne (.var 0) (.const 3), .compare .lt (.var 0) (.const 5),
      .compare .eq (.var 0) (.const 3)] }

def implicationLesson : Lesson where
  title := "implication"
  model := ⟨#[⟨"a", .boolean⟩, ⟨"b", .boolean⟩]⟩
  shown := [0, 1]
  problem := {
    soft := [.literal 0, .literal 1, .implies (.literal 0) (.not (.literal 1))]
    hard := [.literal 0, .literal 1] }

/-- The edges of the graph; among the nodes 0 to 3 all pairs are connected. -/
def edges : List (Var × Var) :=
  [(0, 1), (0, 2), (0, 3), (1, 2), (1, 3), (2, 3), (3, 4), (0, 4)]

def colouringLesson : Lesson where
  title := "graph colouring"
  model := ⟨(Array.range 5).map fun node => ⟨s!"node[{node}]", 1, 3, by decide⟩⟩
  shown := List.range 5
  problem := { soft := edges.map fun (v, w) => differ v w }

def buggedLesson : Lesson where
  title := "bugged"
  model := ⟨#[⟨"IV", -2, 5, by decide⟩, ⟨"BV", .boolean⟩]⟩
  shown := [0, 1]
  problem := {
    soft := [.compare .ne (.var 0) (.const 3), .compare .eq (.var 1) (.const 1),
      .compare .gt (.binary .rem (.const 5) (.var 0)) (.const 2)] }

def lesson : Lecture → Lesson
  | conflict => conflictLesson
  | implication => implicationLesson
  | colouring => colouringLesson
  | bugged => buggedLesson

end Lecture

end Infeasibility
