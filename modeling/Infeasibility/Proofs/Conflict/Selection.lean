import Infeasibility.Proofs.Conflict.Encoding
import Infeasibility.Proofs.Diagnosis.Optimization
import Mathlib.Data.List.Lex
import Mathlib.Order.Bounds.Basic

/-! # The constraints that are kept

The search for the best world looks at the larger choices of soft terms first, and at choices of the
same size in the lexicographic order of their positions. Whichever way a problem is put to it, it
therefore keeps the same soft constraints: of the largest sets that cause no conflict the one that
comes first in this order. -/

namespace Infeasibility

/-! ## Sets of positions -/

namespace Problem

variable {C : Type} {problem : Problem C}

/-- Positions of soft constraints that hold together with the hard ones. -/
structure CanKeep (problem : Problem C) (sat : List C → Prop) (kept : List Nat) : Prop where
  sublist : kept.Sublist (List.range problem.soft.length)
  sat_select : sat (problem.select kept)

/-- There are no more positions that can be kept. -/
structure KeepsMost (problem : Problem C) (sat : List C → Prop) (kept : List Nat) : Prop where
  canKeep : problem.CanKeep sat kept
  length_le : ∀ other, problem.CanKeep sat other → other.length ≤ kept.length

/-- The positions of `true`. -/
def truePositions (satisfied : List Bool) : List Nat :=
  (List.range satisfied.length).filter fun position => satisfied[position]? == some true

theorem mem_truePositions_iff {satisfied : List Bool} {position : Nat} :
    position ∈ truePositions satisfied ↔ satisfied[position]? = some true :=
  mem_filter_range_iff

theorem truePositions_sublist (satisfied : List Bool) :
    (truePositions satisfied).Sublist (List.range satisfied.length) :=
  List.filter_sublist

theorem truePositions_pairwise (satisfied : List Bool) :
    (truePositions satisfied).Pairwise (· < ·) :=
  List.pairwise_lt_range.sublist (truePositions_sublist satisfied)

/-- What is true determines what is not. -/
theorem eq_of_truePositions_eq {first second : List Bool} (hlength : first.length = second.length)
    (h : truePositions first = truePositions second) : first = second := by
  refine List.ext_getElem hlength fun position hfirst hsecond => ?_
  have hmem : position ∈ truePositions first ↔ position ∈ truePositions second := by rw [h]
  rw [mem_truePositions_iff, mem_truePositions_iff, List.getElem?_eq_getElem hfirst,
    List.getElem?_eq_getElem hsecond, Option.some.injEq, Option.some.injEq] at hmem
  exact Bool.eq_iff_iff.mpr hmem

/-- The complement of what is false is what is true. -/
theorem complement_eq_truePositions {satisfied : List Bool} {correction : Diagnosis problem.soft}
    (hlength : satisfied.length = problem.soft.length)
    (h : correction.positions = falsePositions satisfied) :
    correction.complement = truePositions satisfied := by
  refine List.Pairwise.eq_of_mem_iff correction.complement_pairwise
    (truePositions_pairwise satisfied) fun position => ?_
  rw [Diagnosis.mem_complement, h, mem_falsePositions_iff, mem_truePositions_iff, ← hlength]
  by_cases hlt : position < satisfied.length <;> simp [hlt]

end Problem

namespace Conflict

variable {conflicts : List (List Nat)} {problem : Problem Nat} {hard : List Proposition}
  {terms : List (SoftTerm Proposition Nat)} {world : World}

/-! ## The order of the choices -/

theorem choose_map {α β : Type} (f : α → β) (k : Nat) (xs : List α) :
    choose k (xs.map f) = (choose k xs).map (List.map f) := by
  induction xs generalizing k with
  | nil => cases k <;> rfl
  | cons x xs ih =>
      cases k with
      | zero => rfl
      | succ k => simp [choose, ih, Function.comp_def]

/-- Choices from an increasing list come in lexicographic order. -/
theorem pairwise_choose {xs : List Nat} (h : xs.Pairwise (· < ·)) (k : Nat) :
    (choose k xs).Pairwise (· < ·) := by
  induction xs generalizing k with
  | nil => cases k <;> simp [choose]
  | cons x xs ih =>
      obtain ⟨hx, hxs⟩ := List.pairwise_cons.mp h
      cases k with
      | zero => simp [choose]
      | succ k =>
          rw [choose, List.pairwise_append]
          refine ⟨?_, ih hxs (k + 1), ?_⟩
          · rw [List.pairwise_map]
            exact (ih hxs k).imp fun hlt => List.Lex.cons hlt
          · intro first hfirst second hsecond
            obtain ⟨rest, -, rfl⟩ := List.mem_map.mp hfirst
            obtain ⟨hsublist, hlength⟩ := mem_choose_iff.mp hsecond
            cases second with
            | nil => cases hlength
            | cons y ys => exact List.Lex.rel (hx y (hsublist.subset List.mem_cons_self))

/-- The elements at some positions. -/
def elementsAt {α : Type} (xs : List α) (positions : List Nat) : List α :=
  positions.filterMap (xs[·]?)

/-- To choose from a list is to choose positions of it. -/
theorem choose_eq_map_elementsAt {α : Type} (k : Nat) (xs : List α) :
    choose k xs = (choose k (List.range xs.length)).map (elementsAt xs) := by
  have hxs : choose k xs = choose k ((List.finRange xs.length).map xs.get) := by
    rw [List.map_get_finRange]
  rw [hxs, choose_map, ← List.map_coe_finRange_eq_range, choose_map, List.map_map]
  refine List.map_congr_left fun positions _ => ?_
  simp [elementsAt, List.filterMap_map]

/-- Of the elements of an increasing list at which a search could end, it ends at the least. -/
theorem exists_least_of_findSome? {α β : Type} [Preorder α] {f : α → Option β} {xs : List α}
    {result : β} (hxs : xs.Pairwise (· < ·)) (h : xs.findSome? f = some result) :
    ∃ x ∈ xs, f x = some result ∧ ∀ y ∈ xs, f y ≠ none → x ≤ y := by
  obtain ⟨before, x, after, rfl, hx, hnone⟩ := List.findSome?_eq_some_iff.mp h
  refine ⟨x, by simp, hx, fun y hy hne => ?_⟩
  rcases List.mem_append.mp hy with hbefore | hy
  · exact absurd (hnone y hbefore) hne
  · rcases List.mem_cons.mp hy with rfl | hafter
    · exact le_rfl
    · have hlt := List.pairwise_cons.mp (List.pairwise_append.mp hxs).2.1
      exact (hlt.1 y hafter).le

/-- The world of the terms at some positions, if it causes no conflict. -/
def worldAt? (conflicts : List (List Nat)) (hard : List Proposition)
    (terms : List (SoftTerm Proposition Nat)) (positions : List Nat) : Option World :=
  if isConsistent conflicts (worldOf hard (elementsAt terms positions)).atoms then
    some (worldOf hard (elementsAt terms positions))
  else
    none

theorem worldAt?_eq_some_iff {positions : List Nat} :
    worldAt? conflicts hard terms positions = some world ↔
      Free conflicts (worldOf hard (elementsAt terms positions)).atoms ∧
        worldOf hard (elementsAt terms positions) = world := by
  rw [worldAt?, Option.ite_none_right_eq_some, isConsistent_iff worldOf_pairwise, Option.some.injEq]

theorem worldAt?_ne_none_iff {positions : List Nat} :
    worldAt? conflicts hard terms positions ≠ none ↔
      Free conflicts (worldOf hard (elementsAt terms positions)).atoms := by
  rw [Option.ne_none_iff_exists']
  simp [worldAt?_eq_some_iff]

theorem worldOfSize?_eq_findSome? (size : Nat) : worldOfSize? conflicts hard terms size =
    (choose size (List.range terms.length)).findSome? (worldAt? conflicts hard terms) := by
  rw [worldOfSize?, choose_eq_map_elementsAt, List.findSome?_map]
  rfl

/-- The terms at the chosen positions are true. -/
theorem sublist_truePositions (hard : List Proposition) {kept : List Nat}
    (hsublist : kept.Sublist (List.range terms.length)) : kept.Sublist
      (Problem.truePositions (terms.map (worldOf hard (elementsAt terms kept)).satisfies)) := by
  refine sublist_of_forall_mem (List.pairwise_lt_range.sublist hsublist)
    (Problem.truePositions_pairwise _) fun position hposition => ?_
  have hlt : position < terms.length := List.mem_range.mp (hsublist.subset hposition)
  have hterm := List.getElem?_eq_getElem hlt
  have hmem : terms[position] ∈ elementsAt terms kept :=
    List.mem_filterMap.mpr ⟨position, hposition, hterm⟩
  rw [Problem.mem_truePositions_iff, List.getElem?_map, hterm, Option.map_some,
    satisfies_worldOf hmem]

/-! ## What the best world keeps -/

namespace Represents

variable (h : Represents conflicts problem hard terms)

include h

/-- Terms cause a conflict where the soft constraints at their positions do. -/
theorem free_worldOf_iff {kept : List Nat} :
    Free conflicts (worldOf hard (elementsAt terms kept)).atoms ↔
      Free conflicts (problem.select kept) := by
  constructor
  · intro hfree
    have hpossible := isPossible_worldOf hfree
    refine hfree.mono fun c hc => ?_
    rcases Problem.mem_select_iff.mp hc with hhard | ⟨position, hkept, hget⟩
    · exact h.hard_mem _ hpossible c hhard
    · have hlt : position < terms.length := by
        rw [h.length_eq]
        exact (List.getElem?_eq_some_iff.mp hget).1
      have hterm := List.getElem?_eq_getElem hlt
      refine h.soft_mem _ hpossible position _ c hterm hget (satisfies_worldOf ?_)
      exact List.mem_filterMap.mpr ⟨position, hkept, hterm⟩
  · intro hfree
    obtain ⟨world, hpossible, htrue⟩ := h.exists_world kept hfree
    refine hpossible.free.mono (worldOf_subset hpossible fun term hterm => ?_)
    obtain ⟨position, hkept, hget⟩ := List.mem_filterMap.mp hterm
    exact htrue position hkept term hget

/-- The constraints of all terms that are true in a possible world can be kept. -/
theorem canKeep_of_isPossible (hworld : world.IsPossible conflicts hard) :
    problem.CanKeep (Free conflicts) (Problem.truePositions (terms.map world.satisfies)) := by
  constructor
  · have hsublist := Problem.truePositions_sublist (terms.map world.satisfies)
    rwa [List.length_map, h.length_eq] at hsublist
  · refine hworld.free.mono fun c hc => ?_
    rcases Problem.mem_select_iff.mp hc with hhard | ⟨position, htrue, hget⟩
    · exact h.hard_mem world hworld c hhard
    · rw [Problem.mem_truePositions_iff, List.getElem?_map] at htrue
      obtain ⟨term, hterm, hsatisfied⟩ := Option.map_eq_some_iff.mp htrue
      exact h.soft_mem world hworld position term c hterm hget hsatisfied

/-- No larger set can be kept than one of the size at which the search ended. -/
theorem length_le_of_canKeep {size : Nat}
    (hlarger : ∀ larger ≤ terms.length, size < larger →
      worldOfSize? conflicts hard terms larger = none) {other : List Nat}
    (hother : problem.CanKeep (Free conflicts) other) : other.length ≤ size := by
  have hsublist := hother.sublist
  rw [← h.length_eq] at hsublist
  by_contra hlt
  have hle : other.length ≤ terms.length := by simpa using hsublist.length_le
  have hnone := hlarger other.length hle (Nat.lt_of_not_le hlt)
  rw [worldOfSize?_eq_findSome?, List.findSome?_eq_none_iff] at hnone
  refine worldAt?_ne_none_iff.mpr (h.free_worldOf_iff.mpr hother.sat_select) (hnone other ?_)
  exact mem_choose_iff.mpr ⟨hsublist, rfl⟩

/-- The best world keeps as much as possible, and the first of all sets that do. -/
theorem isLeast_truePositions (hworld : bestWorld? conflicts hard terms = some world) :
    IsLeast {kept | problem.KeepsMost (Free conflicts) kept}
      (Problem.truePositions (terms.map world.satisfies)) := by
  obtain ⟨size, hsize, hlarger⟩ := exists_size_of_bestWorld? hworld
  rw [worldOfSize?_eq_findSome?] at hsize
  obtain ⟨kept, hmem, hkept, hleast⟩ :=
    exists_least_of_findSome? (pairwise_choose List.pairwise_lt_range size) hsize
  obtain ⟨hsublist, hlength⟩ := mem_choose_iff.mp hmem
  obtain ⟨hfree, rfl⟩ := worldAt?_eq_some_iff.mp hkept
  have hle : ∀ other, problem.CanKeep (Free conflicts) other → other.length ≤ kept.length := by
    intro other hother
    rw [hlength]
    exact h.length_le_of_canKeep hlarger hother
  -- Terms that are not chosen are false, since more would be kept otherwise.
  have htrue := h.canKeep_of_isPossible (isPossible_worldOf hfree)
  have heq := (sublist_truePositions hard hsublist).eq_of_length_le (hle _ htrue)
  rw [← heq] at htrue ⊢
  refine ⟨⟨htrue, hle⟩, fun other hother => hleast other ?_ ?_⟩
  · have hsame : other.length = kept.length :=
      Nat.le_antisymm (hle other hother.canKeep) (hother.length_le kept htrue)
    have hother_sublist := hother.canKeep.sublist
    rw [← h.length_eq] at hother_sublist
    exact mem_choose_iff.mpr ⟨hother_sublist, hsame.trans hlength⟩
  · exact worldAt?_ne_none_iff.mpr (h.free_worldOf_iff.mpr hother.canKeep.sat_select)

theorem bestWorld?_eq_none_iff :
    bestWorld? conflicts hard terms = none ↔ ¬ Free conflicts problem.hard := by
  have hspec := bestWorld?_spec conflicts hard terms
  split at hspec
  · rename_i world hworld
    rw [hworld]
    refine iff_of_false (by simp) (not_not.mpr (hspec.possible.free.mono fun c hc => ?_))
    exact h.hard_mem world hspec.possible c hc
  · rename_i hnone
    refine iff_of_true hnone fun hhard => ?_
    rw [← Problem.select_nil] at hhard
    obtain ⟨world, hpossible, -⟩ := h.exists_world [] hhard
    exact hspec world hpossible

end Represents

/-! ## Two ways to put a problem -/

/-- However a problem is put to the search, the same constraints are satisfied. -/
theorem Represents.sameTruths {hard' : List Proposition} {terms' : List (SoftTerm Proposition Nat)}
    (h : Represents conflicts problem hard terms) (h' : Represents conflicts problem hard' terms') :
    Problem.SameTruths (optimum conflicts hard terms) (optimum conflicts hard' terms') := by
  have hiff := h.bestWorld?_eq_none_iff.trans h'.bestWorld?_eq_none_iff.symm
  rw [optimum, optimum]
  rcases hfirst : bestWorld? conflicts hard terms with _ | first
  · rw [hiff.mp hfirst]
    exact .unsatisfiable
  rcases hsecond : bestWorld? conflicts hard' terms' with _ | second
  · rw [hiff.mpr hsecond] at hfirst
    cases hfirst
  have hkept := (h.isLeast_truePositions hfirst).unique (h'.isLeast_truePositions hsecond)
  have hsame : terms.map first.satisfies = terms'.map second.satisfies :=
    Problem.eq_of_truePositions_eq (by simp [h.length_eq, h'.length_eq]) hkept
  simp only [hsame]
  exact .optimal

theorem Represents.isLeast_of_optimum (h : Represents conflicts problem hard terms)
    {satisfied : List Bool} {atoms : List Nat}
    (hoptimum : optimum conflicts hard terms = .optimal satisfied atoms) :
    IsLeast {kept | problem.KeepsMost (Free conflicts) kept}
      (Problem.truePositions satisfied) := by
  rw [optimum] at hoptimum
  split at hoptimum
  · cases hoptimum
  · rename_i world hworld
    cases hoptimum
    exact h.isLeast_truePositions hworld

end Conflict

end Infeasibility
