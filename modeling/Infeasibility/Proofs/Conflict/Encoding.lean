import Infeasibility.Proofs.Conflict.Optimum
import Infeasibility.Proofs.Diagnosis.Soundness

/-! # Problems as propositions

There are two ways to put a problem to the search for the best world: its soft constraints may be
soft terms, or each of them the target of a link from an indicator that is a soft term. In both
cases the possible worlds are those of the sets of constraints without conflict, and the best world
is a smallest correction. -/

namespace Infeasibility.Conflict

variable {conflicts : List (List Nat)} {problem : Problem Nat} {hard : List Proposition}
  {terms : List (SoftTerm Proposition Nat)}

/-- In all possible worlds the hard constraints are true, and so is the soft constraint of each
term that is true. Conversely, soft constraints that cause no conflict have a possible world in
which their terms are true. -/
structure Represents (conflicts : List (List Nat)) (problem : Problem Nat)
    (hard : List Proposition) (terms : List (SoftTerm Proposition Nat)) : Prop where
  length_eq : terms.length = problem.soft.length
  hard_mem : ∀ world : World, world.IsPossible conflicts hard → ∀ c ∈ problem.hard,
    c ∈ world.atoms
  soft_mem : ∀ world : World, world.IsPossible conflicts hard → ∀ (position : Nat) term c,
    terms[position]? = some term → problem.soft[position]? = some c →
    world.satisfies term = true → c ∈ world.atoms
  exists_world : ∀ kept : List Nat, Free conflicts (problem.select kept) →
    ∃ world : World, world.IsPossible conflicts hard ∧ ∀ position ∈ kept, ∀ term,
      terms[position]? = some term → world.satisfies term = true

/-! ## The best world of a problem -/

theorem count_map_satisfies (world : World) (terms : List (SoftTerm Proposition Nat)) :
    (terms.map world.satisfies).count true = terms.countP world.satisfies := by
  rw [List.count_eq_countP, List.countP_map]
  exact List.countP_congr fun term _ => by simp

theorem Represents.isOptimum (h : Represents conflicts problem hard terms) {world : World}
    (hbest : world.IsBest conflicts hard terms) :
    problem.IsOptimum (Free conflicts) (terms.map world.satisfies) := by
  constructor
  · intro correction hpositions
    refine hbest.possible.free.mono fun c hc => ?_
    rcases Problem.mem_select_iff.mp hc with hhard | ⟨position, hkept, hget⟩
    · exact h.hard_mem world hbest.possible c hhard
    · obtain ⟨hlt, hnot⟩ := Diagnosis.mem_complement.mp hkept
      rw [← h.length_eq] at hlt
      have hterm : terms[position]? = some terms[position] := List.getElem?_eq_getElem hlt
      refine h.soft_mem world hbest.possible position _ c hterm hget ?_
      by_contra hfalse
      rw [hpositions, Problem.mem_falsePositions_iff, List.getElem?_map, hterm] at hnot
      exact hnot (congrArg some (eq_false_of_ne_true hfalse))
  · intro other hother
    obtain ⟨possible, hpossible, htrue⟩ := h.exists_world other.complement hother
    have hle : (Problem.falsePositions (terms.map possible.satisfies)).length ≤ other.size := by
      refine Problem.length_falsePositions_le_size (by simp [h.length_eq]) fun position hkept => ?_
      obtain ⟨hlt, -⟩ := Diagnosis.mem_complement.mp hkept
      rw [← h.length_eq] at hlt
      have hterm : terms[position]? = some terms[position] := List.getElem?_eq_getElem hlt
      rw [List.getElem?_map, hterm, Option.map_some, htrue position hkept _ hterm]
    -- The best world makes no fewer terms true, and thus leaves no more of them false.
    have hcount := hbest.countP_le possible hpossible
    have hfalse := Problem.length_falsePositions (terms.map world.satisfies)
    have hfalse' := Problem.length_falsePositions (terms.map possible.satisfies)
    rw [count_map_satisfies, List.length_map] at hfalse hfalse'
    omega

theorem Represents.isRight (h : Represents conflicts problem hard terms) :
    problem.IsRight (Free conflicts) (optimum conflicts hard terms) := by
  have hspec := bestWorld?_spec conflicts hard terms
  rw [optimum]
  split at hspec
  · rename_i world hworld
    rw [hworld]
    exact h.isOptimum hspec
  · rename_i hnone
    rw [hnone]
    intro hhard
    rw [← Problem.select_nil] at hhard
    obtain ⟨world, hpossible, -⟩ := h.exists_world [] hhard
    exact hspec world hpossible

/-- The optimum has a truth value for each soft constraint. -/
theorem Represents.length_eq_of_optimum (h : Represents conflicts problem hard terms)
    {satisfied : List Bool} {atoms : List Nat}
    (hoptimum : optimum conflicts hard terms = .optimal satisfied atoms) :
    satisfied.length = problem.soft.length := by
  rw [optimum] at hoptimum
  split at hoptimum
  · cases hoptimum
  · cases hoptimum
    rw [List.length_map, h.length_eq]

/-! ## The two ways -/

/-- The world of some atoms, without indicators, is possible if they contain the hard ones and cause
no conflict. -/
theorem isPossible_ofAtoms {indicators atoms : List Nat} (hfree : Free conflicts atoms)
    (hholds : ∀ p ∈ hard, (World.mk indicators (Ascending.ofList atoms)).holds p = true) :
    (World.mk indicators (Ascending.ofList atoms)).IsPossible conflicts hard :=
  ⟨Ascending.ofList_pairwise atoms, hfree.mono fun _ h => Ascending.mem_ofList.mp h, hholds⟩

theorem represents_atoms (conflicts : List (List Nat)) (problem : Problem Nat) :
    Represents conflicts problem (problem.hard.map .atom)
      (problem.soft.map fun c => .constraint (.atom c)) := by
  constructor
  · exact List.length_map _
  · intro world hworld c hc
    exact (World.hasAtom_iff hworld.increasing).mp (hworld.holds _ (List.mem_map_of_mem hc))
  · intro world hworld position term c hterm hc htrue
    rw [List.getElem?_map, hc] at hterm
    cases hterm
    exact (World.hasAtom_iff hworld.increasing).mp htrue
  · intro kept hfree
    have hatom : ∀ c ∈ problem.select kept,
        (World.mk [] (Ascending.ofList (problem.select kept))).hasAtom c = true := fun c hc =>
      (World.hasAtom_iff (Ascending.ofList_pairwise _)).mpr (Ascending.mem_ofList.mpr hc)
    refine ⟨⟨[], _⟩, isPossible_ofAtoms hfree fun p hp => ?_, fun position hkept term hterm => ?_⟩
    · obtain ⟨c, hc, rfl⟩ := List.mem_map.mp hp
      exact hatom c (Problem.mem_select_iff.mpr (.inl hc))
    · rw [List.getElem?_map] at hterm
      obtain ⟨c, hc, rfl⟩ := Option.map_eq_some_iff.mp hterm
      exact hatom c (Problem.mem_select_iff.mpr (.inr ⟨position, hkept, hc⟩))

/-- Links to some atoms, each from an indicator of its own. -/
def linksTo (indicators atoms : List Nat) : List Link :=
  (indicators.zip atoms).map fun (indicator, atom) => ⟨indicator, atom⟩

theorem length_linksTo {indicators atoms : List Nat} (h : indicators.length = atoms.length) :
    (linksTo indicators atoms).length = atoms.length := by
  rw [linksTo, List.length_map, List.length_zip, h, Nat.min_self]

theorem mem_linksTo_iff {indicators atoms : List Nat} {link : Link} :
    link ∈ linksTo indicators atoms ↔
      ∃ position : Nat, indicators[position]? = some link.indicator ∧
        atoms[position]? = some link.target := by
  rw [linksTo, List.mem_map]
  constructor
  · rintro ⟨pair, hpair, rfl⟩
    obtain ⟨position, hposition⟩ := List.mem_iff_getElem?.mp hpair
    exact ⟨position, List.getElem?_zip_eq_some.mp hposition⟩
  · rintro ⟨position, hposition⟩
    exact ⟨(link.indicator, link.target),
      List.mem_iff_getElem?.mpr ⟨position, List.getElem?_zip_eq_some.mpr hposition⟩, rfl⟩

/-- No indicator may stand for two constraints. -/
theorem represents_links (conflicts : List (List Nat)) {problem : Problem Nat}
    {indicators : List Nat} (hnodup : indicators.Nodup)
    (hlength : indicators.length = problem.soft.length) :
    Represents conflicts problem
      (problem.hard.map .atom ++ (linksTo indicators problem.soft).map .link)
      (indicators.map .indicator) := by
  constructor
  · rw [List.length_map, hlength]
  · intro world hworld c hc
    refine (World.hasAtom_iff hworld.increasing).mp (hworld.holds (.atom c) ?_)
    exact List.mem_append_left _ (List.mem_map_of_mem hc)
  · intro world hworld position term c hterm hc htrue
    rw [List.getElem?_map] at hterm
    obtain ⟨indicator, hget, rfl⟩ := Option.map_eq_some_iff.mp hterm
    have hlink : (⟨indicator, c⟩ : Link) ∈ linksTo indicators problem.soft :=
      mem_linksTo_iff.mpr ⟨position, hget, hc⟩
    have hholds := hworld.holds _ (List.mem_append_right _ (List.mem_map_of_mem hlink))
    exact (World.holds_link_iff hworld.increasing).mp hholds (World.hasIndicator_iff.mp htrue)
  · intro kept hfree
    have hincreasing := Ascending.ofList_pairwise (problem.select kept)
    refine ⟨⟨kept.filterMap (indicators[·]?), _⟩, isPossible_ofAtoms hfree fun p hp => ?_,
      fun position hkept term hterm => ?_⟩
    · rcases List.mem_append.mp hp with hp | hp
      · obtain ⟨c, hc, rfl⟩ := List.mem_map.mp hp
        exact (World.hasAtom_iff hincreasing).mpr
          (Ascending.mem_ofList.mpr (Problem.mem_select_iff.mpr (.inl hc)))
      · obtain ⟨link, hlink, rfl⟩ := List.mem_map.mp hp
        obtain ⟨position, hindicator, hc⟩ := mem_linksTo_iff.mp hlink
        refine (World.holds_link_iff hincreasing).mpr fun hmem => ?_
        obtain ⟨other, hother, hget⟩ := List.mem_filterMap.mp hmem
        -- the indicator of the link stands at one position only, which is thus kept
        obtain ⟨hlt, hat⟩ := List.getElem?_eq_some_iff.mp hindicator
        obtain ⟨hlt', hat'⟩ := List.getElem?_eq_some_iff.mp hget
        obtain rfl : other = position := hnodup.getElem_inj_iff.mp (hat'.trans hat.symm)
        exact Ascending.mem_ofList.mpr (Problem.mem_select_iff.mpr (.inr ⟨other, hother, hc⟩))
    · rw [List.getElem?_map] at hterm
      obtain ⟨indicator, hget, rfl⟩ := Option.map_eq_some_iff.mp hterm
      exact World.hasIndicator_iff.mpr (List.mem_filterMap.mpr ⟨position, hkept, hget⟩)

end Infeasibility.Conflict
