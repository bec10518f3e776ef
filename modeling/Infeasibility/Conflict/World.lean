import Infeasibility.Ascending
import Infeasibility.Oracle.Basic

/-!
# Worlds without conflict

Constraints are independent atoms, designated by numbers, or links: implications from an indicator
to an atom. Some sets of atoms are declared to be in conflict. A world consists of the indicators
and the atoms that are true in it; of the worlds for given indicators the least one is forced by
the constraints, and it is the only one worth looking at.
-/

namespace Infeasibility.Conflict

/-- Wherever the indicator is true, so is the target. -/
structure Link where
  indicator : Nat
  target : Nat
  deriving Repr, DecidableEq

inductive Proposition where
  | atom (atom : Nat)
  | link (link : Link)
  deriving Repr, DecidableEq

/-- What is true. -/
structure World where
  indicators : List Nat
  /-- The true atoms, in increasing order. -/
  atoms : List Nat
  deriving Repr, DecidableEq

/-- Whether none of the conflicts is among some atoms, given in increasing order. -/
def isConsistent (conflicts : List (List Nat)) (atoms : List Nat) : Bool :=
  conflicts.all fun conflict => !conflict.all fun atom => Ascending.contains atom atoms

namespace Proposition

/-- The atom that a proposition forces to be true when exactly the given indicators are. -/
def forced? (indicators : List Nat) : Proposition → Option Nat
  | atom a => some a
  | link l => if indicators.contains l.indicator then some l.target else none

end Proposition

namespace World

/-- The least world with these indicators in which the propositions hold. -/
def forcedBy (indicators : List Nat) (propositions : List Proposition) : World where
  indicators := indicators
  atoms := Ascending.ofList (propositions.filterMap (Proposition.forced? indicators))

def hasIndicator (world : World) (indicator : Nat) : Bool :=
  world.indicators.contains indicator

def hasAtom (world : World) (atom : Nat) : Bool :=
  Ascending.contains atom world.atoms

/-- Whether a proposition holds. -/
def holds (world : World) : Proposition → Bool
  | .atom a => world.hasAtom a
  | .link l => !world.hasIndicator l.indicator || world.hasAtom l.target

/-- Whether a soft term is true. -/
def satisfies (world : World) : SoftTerm Proposition Nat → Bool
  | .indicator indicator => world.hasIndicator indicator
  | .constraint proposition => world.holds proposition

end World

/-! ### The best world -/

/-- The sublists with `k` elements, in lexicographic order of their positions. -/
def choose {α : Type} : Nat → List α → List (List α)
  | 0, _ => [[]]
  | _ + 1, [] => []
  | k + 1, x :: xs => (choose k xs).map (x :: ·) ++ choose (k + 1) xs

def indicator? {C ι : Type} : SoftTerm C ι → Option ι
  | .indicator indicator => some indicator
  | .constraint _ => none

def constraint? {C ι : Type} : SoftTerm C ι → Option C
  | .indicator _ => none
  | .constraint constraint => some constraint

/-- The least world in which the hard propositions and the chosen terms are true. -/
def worldOf (hard : List Proposition) (chosen : List (SoftTerm Proposition Nat)) : World :=
  World.forcedBy (chosen.filterMap indicator?) (hard ++ chosen.filterMap constraint?)

/-- The world of the first choice of soft terms that causes no conflict: larger choices come
first, then lexicographic order decides. -/
def bestWorld? (conflicts : List (List Nat)) (hard : List Proposition)
    (soft : List (SoftTerm Proposition Nat)) : Option World :=
  (List.range (soft.length + 1)).reverse.findSome? fun size =>
    (choose size soft).findSome? fun chosen =>
      let world := worldOf hard chosen
      if isConsistent conflicts world.atoms then some world else none

/-- The truth of the soft terms in the best world, and its atoms. -/
def optimum (conflicts : List (List Nat)) (hard : List Proposition)
    (soft : List (SoftTerm Proposition Nat)) : Optimum (List Nat) :=
  match bestWorld? conflicts hard soft with
  | none => .unsatisfiable
  | some world => .optimal (soft.map world.satisfies) world.atoms

end Infeasibility.Conflict
