import Infeasibility.Proofs.Conflict.Runs

/-! # Optima over all valuations

The search for an optimum looks at the worlds that are forced by a choice of soft terms. What it
finds is an optimum over all valuations: any indicators and any atoms may be true, whether or not
something forces them to be. -/

namespace Infeasibility.Conflict

/-! ## Valuations -/

/-- The truth values of all indicators and of all atoms. -/
structure Valuation where
  indicator : Nat → Bool
  atom : Nat → Bool

namespace Valuation

/-- The valuation in which exactly the listed indicators and atoms are true. -/
def ofLists (indicators atoms : List Nat) : Valuation :=
  ⟨fun indicator => indicator ∈ indicators, fun atom => atom ∈ atoms⟩

/-- In each conflict there is an atom that is false. -/
def IsFree (conflicts : List (List Nat)) (valuation : Valuation) : Prop :=
  ∀ conflict ∈ conflicts, ∃ atom ∈ conflict, valuation.atom atom = false

def holds (valuation : Valuation) : Proposition → Bool
  | .atom a => valuation.atom a
  | .link l => !valuation.indicator l.indicator || valuation.atom l.target

/-- Whether the constraint with this identifier holds. One that was never recorded does not. -/
def holdsFor (valuation : Valuation) (table : Table) (constraint : Nat) : Bool :=
  if constraint < firstLink then
    valuation.atom constraint
  else
    table.links[constraint - firstLink]?.any fun link => valuation.holds (.link link)

/-- The truth of a soft term, given the truth of constraints. -/
def satisfies {C : Type} (valuation : Valuation) (holds : C → Bool) : SoftTerm C Nat → Bool
  | .indicator indicator => valuation.indicator indicator
  | .constraint constraint => holds constraint

/-- The truth of some soft terms. -/
def truths (valuation : Valuation) (table : Table) (soft : List (SoftTerm Nat Nat)) : List Bool :=
  soft.map (valuation.satisfies (valuation.holdsFor table))

/-- No conflict of the table is true, and the hard constraints hold. -/
structure IsModel (table : Table) (hard : List Nat) (valuation : Valuation) : Prop where
  free : valuation.IsFree table.conflicts
  holds : ∀ c ∈ hard, valuation.holdsFor table c = true

end Valuation

/-! ## Valuations and worlds -/

namespace Proposition

def indicator? : Proposition → Option Nat
  | atom _ => none
  | link l => some l.indicator

/-- The atom that a proposition is about. -/
def target : Proposition → Nat
  | atom a => a
  | link l => l.target

end Proposition

variable {conflicts : List (List Nat)} {hard propositions : List Proposition}
  {terms : List (SoftTerm Proposition Nat)} {indicators : List Nat} {valuation : Valuation}

theorem isFree_ofLists_iff {atoms : List Nat} :
    (Valuation.ofLists indicators atoms).IsFree conflicts ↔ Free conflicts atoms := by
  simp [Valuation.IsFree, Valuation.ofLists, Free, List.subset_def]

namespace World

/-- The part of a valuation that matters to some propositions and indicators. -/
def within (valuation : Valuation) (propositions : List Proposition) (indicators : List Nat) :
    World where
  indicators :=
    (indicators ++ propositions.filterMap Proposition.indicator?).filter valuation.indicator
  atoms := Ascending.ofList ((propositions.map Proposition.target).filter valuation.atom)

theorem hasIndicator_within {indicator : Nat}
    (h : indicator ∈ indicators ++ propositions.filterMap Proposition.indicator?) :
    (within valuation propositions indicators).hasIndicator indicator =
      valuation.indicator indicator := by
  rw [Bool.eq_iff_iff, hasIndicator_iff, within, List.mem_filter]
  exact and_iff_right h

theorem hasAtom_within {atom : Nat} (h : atom ∈ propositions.map Proposition.target) :
    (within valuation propositions indicators).hasAtom atom = valuation.atom atom := by
  rw [Bool.eq_iff_iff, hasAtom_iff (Ascending.ofList_pairwise _), within, Ascending.mem_ofList,
    List.mem_filter]
  exact and_iff_right h

theorem holds_within {p : Proposition} (hp : p ∈ propositions) :
    (within valuation propositions indicators).holds p = valuation.holds p := by
  have htarget : (within valuation propositions indicators).hasAtom p.target =
      valuation.atom p.target :=
    hasAtom_within (List.mem_map_of_mem hp)
  cases p with
  | atom a => exact htarget
  | link l =>
      have hindicator : l.indicator ∈
          indicators ++ propositions.filterMap Proposition.indicator? :=
        List.mem_append_right _ (List.mem_filterMap.mpr ⟨_, hp, rfl⟩)
      rw [holds, Valuation.holds, hasIndicator_within hindicator]
      exact congrArg (!valuation.indicator l.indicator || ·) htarget

theorem free_within (h : valuation.IsFree conflicts) :
    Free conflicts (within valuation propositions indicators).atoms := by
  intro conflict hconflict hsubset
  obtain ⟨atom, hatom, hfalse⟩ := h conflict hconflict
  have htrue := List.mem_filter.mp (Ascending.mem_ofList.mp (hsubset hatom))
  rw [htrue.2] at hfalse
  cases hfalse

variable {world : World}

theorem holds_eq (h : world.atoms.Pairwise (· < ·)) (p : Proposition) :
    world.holds p = (Valuation.ofLists world.indicators world.atoms).holds p := by
  rw [Bool.eq_iff_iff]
  cases p with
  | atom a => simp [holds, Valuation.holds, Valuation.ofLists, hasAtom_iff h]
  | link l => simp [holds_link_iff h, Valuation.holds, Valuation.ofLists, imp_iff_not_or]

theorem satisfies_eq (h : world.atoms.Pairwise (· < ·)) (term : SoftTerm Proposition Nat) :
    world.satisfies term = (Valuation.ofLists world.indicators world.atoms).satisfies
      (Valuation.ofLists world.indicators world.atoms).holds term := by
  cases term with
  | indicator indicator => exact List.elem_eq_mem _ _
  | constraint p => exact holds_eq h p

end World

/-- Where a valuation has no conflict and the hard propositions hold, a possible world has the same
truth values. -/
theorem exists_possible (hfree : valuation.IsFree conflicts)
    (hhard : ∀ p ∈ hard, valuation.holds p = true) (terms : List (SoftTerm Proposition Nat)) :
    ∃ world : World, world.IsPossible conflicts hard ∧
      ∀ term ∈ terms, world.satisfies term = valuation.satisfies valuation.holds term := by
  refine ⟨World.within valuation (hard ++ terms.filterMap constraint?)
    (terms.filterMap Conflict.indicator?), ⟨Ascending.ofList_pairwise _, World.free_within hfree,
      fun p hp => ?_⟩, fun term hterm => ?_⟩
  · rw [World.holds_within (List.mem_append_left _ hp), hhard p hp]
  · cases term with
    | indicator indicator =>
        exact World.hasIndicator_within
          (List.mem_append_left _ (List.mem_filterMap.mpr ⟨_, hterm, rfl⟩))
    | constraint p =>
        exact World.holds_within
          (List.mem_append_right _ (List.mem_filterMap.mpr ⟨_, hterm, rfl⟩))

/-! ## The optimum -/

theorem optimum_eq_unsatisfiable_iff : optimum conflicts hard terms = .unsatisfiable ↔
    ∀ valuation : Valuation, valuation.IsFree conflicts →
      ¬ ∀ p ∈ hard, valuation.holds p = true := by
  have hspec := bestWorld?_spec conflicts hard terms
  rw [optimum]
  split at hspec
  · rename_i world hworld
    have hpossible := hspec.possible
    rw [hworld]
    refine iff_of_false (by simp) fun h => ?_
    refine h (Valuation.ofLists world.indicators world.atoms)
      (isFree_ofLists_iff.mpr hpossible.free) fun p hp => ?_
    rw [← World.holds_eq hpossible.increasing]
    exact hpossible.holds p hp
  · rename_i hnone
    rw [hnone]
    refine iff_of_true rfl fun valuation hfree hhard => ?_
    obtain ⟨world, hpossible, -⟩ := exists_possible hfree hhard []
    exact hspec world hpossible

/-- The optimum is the truth in a valuation of the chosen indicators and the forced atoms, and no
other valuation makes more terms true. -/
theorem exists_choice_of_optimum {satisfied : List Bool} {atoms : List Nat}
    (h : optimum conflicts hard terms = .optimal satisfied atoms) :
    ∃ chosen, chosen.Sublist (terms.filterMap indicator?) ∧
      (Valuation.ofLists chosen atoms).IsFree conflicts ∧
      (∀ p ∈ hard, (Valuation.ofLists chosen atoms).holds p = true) ∧
      satisfied = terms.map ((Valuation.ofLists chosen atoms).satisfies
        (Valuation.ofLists chosen atoms).holds) ∧
      ∀ other : Valuation, other.IsFree conflicts → (∀ p ∈ hard, other.holds p = true) →
        (terms.map (other.satisfies other.holds)).count true ≤ satisfied.count true := by
  rw [optimum] at h
  split at h
  · cases h
  rename_i world hworld
  cases h
  have hbest := bestWorld?_spec conflicts hard terms
  rw [hworld] at hbest
  have hincreasing := hbest.possible.increasing
  obtain ⟨chosen, hsublist, heq, -, -⟩ := exists_choice_of_bestWorld? hworld
  have hindicators : world.indicators = chosen.filterMap indicator? := by
    rw [heq]
    rfl
  refine ⟨world.indicators, ?_, isFree_ofLists_iff.mpr hbest.possible.free, fun p hp => ?_,
    List.map_congr_left fun term _ => World.satisfies_eq hincreasing term,
    fun other hfree hhard => ?_⟩
  · rw [hindicators]
    exact hsublist.filterMap indicator?
  · rw [← World.holds_eq hincreasing]
    exact hbest.possible.holds p hp
  · obtain ⟨possible, hpossible, hsame⟩ := exists_possible hfree hhard terms
    rw [← List.map_congr_left hsame, count_map_satisfies, count_map_satisfies]
    exact hbest.countP_le possible hpossible

/-! ## Identifiers -/

/-- The identifier designates an atom or a recorded link. -/
def Table.Knows (table : Table) (constraint : Nat) : Prop :=
  constraint < firstLink ∨ constraint - firstLink < table.links.length

instance (table : Table) : DecidablePred table.Knows :=
  fun constraint => inferInstanceAs
    (Decidable (constraint < firstLink ∨ constraint - firstLink < table.links.length))

variable {table : Table}

theorem exists_resolve {constraint : Nat} (h : table.Knows constraint) :
    ∃ p, table.resolve constraint = .ok p := by
  rw [Table.resolve]
  split
  · exact ⟨_, rfl⟩
  · rename_i hatom
    rw [List.getElem?_eq_getElem (h.resolve_left hatom)]
    exact ⟨_, rfl⟩

/-- What an identifier means holds where the constraint with the identifier does. -/
theorem holds_of_resolve {constraint : Nat} {p : Proposition}
    (h : table.resolve constraint = .ok p) (valuation : Valuation) :
    valuation.holdsFor table constraint = valuation.holds p := by
  rw [Table.resolve] at h
  rw [Valuation.holdsFor]
  split at h
  · rename_i hatom
    cases h
    rw [if_pos hatom]
    rfl
  · rename_i hatom
    rw [if_neg hatom]
    split at h
    · rename_i link hlink
      cases h
      rw [hlink]
      rfl
    · cases h

theorem exists_resolveTerm {term : SoftTerm Nat Nat}
    (h : ∀ constraint, term = .constraint constraint → table.Knows constraint) :
    ∃ resolved, table.resolveTerm term = .ok resolved := by
  cases term with
  | indicator indicator => exact ⟨_, rfl⟩
  | constraint constraint =>
      obtain ⟨p, hp⟩ := exists_resolve (h constraint rfl)
      exact ⟨.constraint p, by rw [Table.resolveTerm, hp]; rfl⟩

theorem satisfies_of_resolveTerm {term : SoftTerm Nat Nat} {resolved : SoftTerm Proposition Nat}
    (h : table.resolveTerm term = .ok resolved) :
    indicator? term = indicator? resolved ∧ ∀ valuation : Valuation,
      valuation.satisfies (valuation.holdsFor table) term =
        valuation.satisfies valuation.holds resolved := by
  cases term with
  | indicator indicator =>
      cases h
      exact ⟨rfl, fun _ => rfl⟩
  | constraint constraint =>
      obtain ⟨p, hp, rfl⟩ := map_eq_ok_iff.mp h
      exact ⟨rfl, holds_of_resolve hp⟩

theorem isModel_iff_of_resolve {hard : List Nat} {propositions : List Proposition}
    (h : hard.mapM table.resolve = .ok propositions) (valuation : Valuation) :
    valuation.IsModel table hard ↔
      valuation.IsFree table.conflicts ∧ ∀ p ∈ propositions, valuation.holds p = true := by
  have hsame : hard.map (valuation.holdsFor table) = propositions.map valuation.holds :=
    map_eq_map_of_mapM h fun _ _ hresolve => holds_of_resolve hresolve valuation
  have hall : (∀ c ∈ hard, valuation.holdsFor table c = true) ↔
      ∀ p ∈ propositions, valuation.holds p = true := by
    rw [← List.forall_mem_map (P := (· = true)), hsame, List.forall_mem_map]
  rw [← hall]
  constructor
  · intro hmodel
    exact ⟨hmodel.free, hmodel.holds⟩
  · rintro ⟨hfree, hholds⟩
    exact ⟨hfree, hholds⟩

theorem truths_of_resolveTerm {soft : List (SoftTerm Nat Nat)}
    {terms : List (SoftTerm Proposition Nat)} (h : soft.mapM table.resolveTerm = .ok terms)
    (valuation : Valuation) :
    valuation.truths table soft = terms.map (valuation.satisfies valuation.holds) :=
  map_eq_map_of_mapM h fun _ _ hresolve => (satisfies_of_resolveTerm hresolve).2 valuation

theorem filterMap_indicator?_of_resolveTerm {soft : List (SoftTerm Nat Nat)}
    {terms : List (SoftTerm Proposition Nat)} (h : soft.mapM table.resolveTerm = .ok terms) :
    soft.filterMap indicator? = terms.filterMap indicator? := by
  have hsame : soft.map indicator? = terms.map indicator? :=
    map_eq_map_of_mapM h fun _ _ hresolve => (satisfies_of_resolveTerm hresolve).1
  have hid := congrArg (List.filterMap id) hsame
  rwa [List.filterMap_map, List.filterMap_map] at hid

/-- The optimum is one over all valuations. It is the truth of the soft terms where exactly some of
their indicators, and the atoms that are returned, are true: no conflict is, the hard constraints
hold, and nowhere else more soft terms do. There is none only if the hard constraints hold
nowhere. -/
theorem maximize_optimal (table : Table) {hard : List Nat} {soft : List (SoftTerm Nat Nat)}
    (hlength : soft.length ≤ maxSoftTerms) (hsupported : table.softConstraints = true)
    (hanswered : table.failAt ≠ some table.questions)
    (hknown : ∀ c ∈ hard ++ soft.filterMap constraint?, table.Knows c) :
    ∃ answer, oracle.maximize hard soft table =
        (.ok (.ok answer), { table with questions := table.questions + 1 }) ∧
      (answer = .unsatisfiable ↔ ∀ valuation : Valuation, ¬ valuation.IsModel table hard) ∧
      ∀ satisfied atoms, answer = .optimal satisfied atoms →
        ∃ chosen, chosen.Sublist (soft.filterMap indicator?) ∧
          (Valuation.ofLists chosen atoms).IsModel table hard ∧
          satisfied = (Valuation.ofLists chosen atoms).truths table soft ∧
          ∀ other : Valuation, other.IsModel table hard →
            (other.truths table soft).count true ≤ satisfied.count true := by
  obtain ⟨hhard, hsoft⟩ := List.forall_mem_append.mp hknown
  obtain ⟨propositions, hpropositions⟩ :=
    exists_mapM_eq_ok fun c hc => exists_resolve (hhard c hc)
  obtain ⟨terms, hterms⟩ : ∃ terms, soft.mapM table.resolveTerm = .ok terms := by
    refine exists_mapM_eq_ok fun term hterm => exists_resolveTerm ?_
    rintro constraint rfl
    exact hsoft constraint (List.mem_filterMap.mpr ⟨_, hterm, rfl⟩)
  refine ⟨optimum table.conflicts propositions terms, ?_, ?_, fun satisfied atoms hoptimum => ?_⟩
  · rw [← optimize_eq_ok hlength (.inl hsupported) hpropositions hterms]
    exact answering_of_failAt_ne hanswered fun table => table.optimize hard soft
  · simp only [optimum_eq_unsatisfiable_iff, isModel_iff_of_resolve hpropositions, not_and]
  · obtain ⟨chosen, hsublist, hfree, hholds, hsatisfied, hle⟩ := exists_choice_of_optimum hoptimum
    rw [← filterMap_indicator?_of_resolveTerm hterms] at hsublist
    rw [← truths_of_resolveTerm hterms] at hsatisfied
    refine ⟨chosen, hsublist, (isModel_iff_of_resolve hpropositions _).mpr ⟨hfree, hholds⟩,
      hsatisfied, fun other hother => ?_⟩
    obtain ⟨hfree, hholds⟩ := (isModel_iff_of_resolve hpropositions other).mp hother
    rw [truths_of_resolveTerm hterms]
    exact hle other hfree hholds

/-- Terms are repeated, and the link among them holds because its indicator is not chosen. -/
theorem maximize_optimal_of_repetition :
    let table : Table := { conflicts := [[0, 1], [2, 3]], links := [⟨7, 1⟩, ⟨8, 2⟩] }
    let hard := [3, firstLink]
    let soft : List (SoftTerm Nat Nat) := [.indicator 7, .constraint 0, .constraint 0,
      .constraint (firstLink + 1), .indicator 8, .indicator 7]
    let satisfied := [true, false, false, true, false, true]
    (soft.length ≤ maxSoftTerms ∧ table.softConstraints = true ∧
      table.failAt ≠ some table.questions ∧
      ∀ c ∈ hard ++ soft.filterMap constraint?, table.Knows c) ∧
    (oracle.maximize hard soft table).1 = .ok (.ok (.optimal satisfied [1, 3])) ∧
    ∀ other : Valuation, other.IsModel table hard →
      (other.truths table soft).count true ≤ 3 := by
  intro table hard soft satisfied
  have hlength : soft.length ≤ maxSoftTerms := by decide
  have hanswered : table.failAt ≠ some table.questions := by decide
  have hknown : ∀ c ∈ hard ++ soft.filterMap constraint?, table.Knows c := by decide +kernel
  have hoptimal : (oracle.maximize hard soft table).1 =
      .ok (.ok (.optimal satisfied [1, 3])) := by
    decide +kernel
  refine ⟨⟨hlength, rfl, hanswered, hknown⟩, hoptimal, fun other hother => ?_⟩
  obtain ⟨answer, hanswer, -, hbest⟩ := maximize_optimal table hlength rfl hanswered hknown
  rw [hanswer] at hoptimal
  have heq : answer = .optimal satisfied [1, 3] := Except.ok.inj (Except.ok.inj hoptimal)
  obtain ⟨chosen, -, -, -, hle⟩ := hbest satisfied [1, 3] heq
  exact hle other hother

end Infeasibility.Conflict
