import Infeasibility.Conflict.World

/-!
# The oracle of declared conflicts

A toy oracle, whose constraints are numbers: small ones designate atoms, large ones the links that
it has recorded. Constraints are unsatisfiable if they force the atoms of a declared conflict. It
can be made to fail at a question of choice.
-/

namespace Infeasibility.Conflict

/-- The numbers from here on designate links. -/
def firstLink : Nat := 1 <<< 30

/-- With more soft terms than this, maximization is refused. -/
def maxSoftTerms : Nat := 20

structure Table where
  conflicts : List (List Nat)
  /-- Whether constraints are accepted as soft terms. -/
  softConstraints : Bool := true
  /-- The number of the question, counted from zero, that times out. -/
  failAt : Option Nat := none
  /-- How many verdicts were asked for. -/
  questions : Nat := 0
  /-- The recorded links, in the order of their identifiers. -/
  links : List Link := []
  /-- The number of the next indicator. When all numbers of 32 bits have been given away, they are
  given away again, even those of indicators that were not released. -/
  nextIndicator : UInt32 := 0
  /-- The indicators that were not released, in increasing order. -/
  live : List Nat := []
  deriving Repr, DecidableEq

namespace Table

/-- What a constraint means. -/
def resolve (table : Table) (constraint : Nat) : Except Misuse Proposition :=
  if constraint < firstLink then
    .ok (.atom constraint)
  else
    match table.links[constraint - firstLink]? with
    | some link => .ok (.link link)
    | none => .error (.noSuchImplication constraint)

@[inherit_doc resolve]
def resolveTerm (table : Table) : SoftTerm Nat Nat → Except Misuse (SoftTerm Proposition Nat)
  | .indicator indicator => .ok (.indicator indicator)
  | .constraint constraint => .constraint <$> table.resolve constraint

/-- Counts a question, and answers it unless it is the one that times out. -/
def answering {α : Type} (answer : Table → Except Misuse (Except OracleError α)) :
    Step Table (Except OracleError α) :=
  fun table =>
    let counted := { table with questions := table.questions + 1 }
    if table.failAt = some table.questions then
      (.ok (.error .timeout), counted)
    else
      (answer table, counted)

/-- The least world is the one without indicators: no link forces anything there. -/
def verdict (table : Table) (constraints : List Nat) :
    Except Misuse (Except OracleError (Outcome (List Nat))) := do
  let propositions ← constraints.mapM table.resolve
  let world := World.forcedBy [] propositions
  if isConsistent table.conflicts world.atoms then
    return .ok (.satisfiable world.atoms)
  else
    return .ok .unsatisfiable

/-- Refuses too many soft terms, then constraints among them if they are not accepted, and only
then looks at what the constraints mean. -/
def optimize (table : Table) (hard : List Nat) (soft : List (SoftTerm Nat Nat)) :
    Except Misuse (Except OracleError (Optimum (List Nat))) := do
  if maxSoftTerms < soft.length then
    return .error (.resourceLimit s!"{soft.length} soft terms")
  else if !table.softConstraints && !(soft.filterMap constraint?).isEmpty then
    return .error (.failure "soft constraints are not supported")
  else
    let hard ← hard.mapM table.resolve
    let soft ← soft.mapM table.resolveTerm
    return .ok (optimum table.conflicts hard soft)

/-! ### Indicators and links -/

def addIndicator (table : Table) : Table :=
  { table with
    nextIndicator := table.nextIndicator + 1
    live := Ascending.insert table.nextIndicator.toNat table.live }

def addLink (table : Table) (link : Link) : Table :=
  { table with links := table.links ++ [link] }

/-- The list without the longest ending whose elements all satisfy `p`. -/
def dropEnding {α : Type} (p : α → Bool) (xs : List α) : List α :=
  (xs.reverse.dropWhile p).reverse

/-- Links of indicators that are not live are forgotten once no link of a live one was recorded
after them: then their identifiers may be used again. -/
def release (table : Table) (indicators : List Nat) : Table :=
  let live := table.live.filter fun indicator => !indicators.contains indicator
  { table with
    live
    links := dropEnding (fun link => !Ascending.contains link.indicator live) table.links }

end Table

/-- The oracle of a table of conflicts. -/
def oracle : Oracle Table Nat (List Nat) Nat where
  solve constraints := Table.answering fun table => table.verdict constraints
  newIndicator := fun table => (.ok table.nextIndicator.toNat, table.addIndicator)
  implication indicator constraint := fun table =>
    if constraint < firstLink then
      (.ok (firstLink + table.links.length), table.addLink ⟨indicator, constraint⟩)
    else
      (.error .nestedImplication, table)
  release indicators := fun table => (.ok (), table.release indicators)
  supportsSoft := Table.softConstraints
  maximize hard soft := Table.answering fun table => table.optimize hard soft

end Infeasibility.Conflict
