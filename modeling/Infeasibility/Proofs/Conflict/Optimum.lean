import Infeasibility.Proofs.Conflict.Consistency

/-! # The best world

A world is possible if it is free of conflicts and the hard propositions hold in it. Of the possible
worlds in which given soft terms are true the least one is forced. The search through the choices
of soft terms therefore finds a possible world in which as many terms are true as in any other. -/

namespace Infeasibility.Conflict

variable {conflicts : List (List Nat)} {hard : List Proposition}
  {soft chosen : List (SoftTerm Proposition Nat)}

/-! ## Choices -/

theorem mem_choose_iff {α : Type} {k : Nat} {xs ys : List α} :
    xs ∈ choose k ys ↔ xs.Sublist ys ∧ xs.length = k := by
  induction ys generalizing k xs with
  | nil => cases k <;> simp +contextual [choose, eq_comm]
  | cons y ys ih =>
      cases k with
      | zero => simp +contextual [choose]
      | succ k =>
          simp only [choose, List.mem_append, List.mem_map, ih, List.sublist_cons_iff]
          constructor
          · rintro (⟨rest, ⟨hrest, hlength⟩, rfl⟩ | ⟨hxs, hlength⟩)
            · exact ⟨.inr ⟨rest, rfl, hrest⟩, by simp [hlength]⟩
            · exact ⟨.inl hxs, hlength⟩
          · rintro ⟨hxs | ⟨rest, rfl, hrest⟩, hlength⟩
            · exact .inr ⟨hxs, hlength⟩
            · exact .inl ⟨rest, ⟨hrest, by simpa using hlength⟩, rfl⟩

/-! ## Possible worlds -/

namespace World

variable {world : World}

/-- The world has no conflict, and the hard propositions hold in it. -/
structure IsPossible (conflicts : List (List Nat)) (hard : List Proposition) (world : World) :
    Prop where
  increasing : world.atoms.Pairwise (· < ·)
  free : Free conflicts world.atoms
  holds : ∀ p ∈ hard, world.holds p = true

theorem hasIndicator_iff {indicator : Nat} :
    world.hasIndicator indicator = true ↔ indicator ∈ world.indicators := by
  simp [hasIndicator]

theorem hasAtom_iff (h : world.atoms.Pairwise (· < ·)) {atom : Nat} :
    world.hasAtom atom = true ↔ atom ∈ world.atoms :=
  Ascending.contains_iff h

theorem holds_link_iff (h : world.atoms.Pairwise (· < ·)) {link : Link} :
    world.holds (.link link) = true ↔
      (link.indicator ∈ world.indicators → link.target ∈ world.atoms) := by
  rw [holds, Bool.or_eq_true, Bool.not_eq_true', ← Bool.not_eq_true, hasIndicator_iff,
    hasAtom_iff h, imp_iff_not_or]

/-- What a proposition forces is true wherever it holds and there are no fewer indicators. -/
theorem mem_of_forced? (h : world.atoms.Pairwise (· < ·)) {p : Proposition}
    (hp : world.holds p = true) {indicators : List Nat} (hsubset : indicators ⊆ world.indicators)
    {atom : Nat} (hforced : p.forced? indicators = some atom) : atom ∈ world.atoms := by
  cases p with
  | atom a =>
      cases hforced
      exact (hasAtom_iff h).mp hp
  | link l =>
      rw [Proposition.forced?] at hforced
      split at hforced
      · rename_i hcontains
        cases hforced
        exact (holds_link_iff h).mp hp (hsubset (List.contains_iff_mem.mp hcontains))
      · cases hforced

theorem forcedBy_pairwise (indicators : List Nat) (propositions : List Proposition) :
    (forcedBy indicators propositions).atoms.Pairwise (· < ·) :=
  Ascending.ofList_pairwise _

theorem mem_forcedBy_iff {indicators : List Nat} {propositions : List Proposition} {atom : Nat} :
    atom ∈ (forcedBy indicators propositions).atoms ↔
      ∃ p ∈ propositions, p.forced? indicators = some atom := by
  rw [forcedBy, Ascending.mem_ofList, List.mem_filterMap]

/-- Propositions hold in the world that they force. -/
theorem holds_forcedBy {indicators : List Nat} {propositions : List Proposition} {p : Proposition}
    (hp : p ∈ propositions) : (forcedBy indicators propositions).holds p = true := by
  have hpairwise := forcedBy_pairwise indicators propositions
  cases p with
  | atom a => exact (hasAtom_iff hpairwise).mpr (mem_forcedBy_iff.mpr ⟨_, hp, rfl⟩)
  | link l =>
      refine (holds_link_iff hpairwise).mpr fun hmem => mem_forcedBy_iff.mpr ⟨_, hp, ?_⟩
      have hcontains : indicators.contains l.indicator = true := by simpa [forcedBy] using hmem
      rw [Proposition.forced?, if_pos hcontains]

end World

/-! ## Worlds of a choice -/

variable {world : World}

theorem worldOf_pairwise : (worldOf hard chosen).atoms.Pairwise (· < ·) :=
  World.forcedBy_pairwise _ _

theorem holds_worldOf {p : Proposition} (hp : p ∈ hard) : (worldOf hard chosen).holds p = true :=
  World.holds_forcedBy (List.mem_append_left _ hp)

/-- What is chosen is true. -/
theorem satisfies_worldOf {term : SoftTerm Proposition Nat} (hterm : term ∈ chosen) :
    (worldOf hard chosen).satisfies term = true := by
  cases term with
  | indicator indicator =>
      exact World.hasIndicator_iff.mpr (List.mem_filterMap.mpr ⟨_, hterm, rfl⟩)
  | constraint proposition =>
      refine World.holds_forcedBy (List.mem_append_right _ ?_)
      exact List.mem_filterMap.mpr ⟨_, hterm, rfl⟩

theorem isPossible_worldOf (h : Free conflicts (worldOf hard chosen).atoms) :
    (worldOf hard chosen).IsPossible conflicts hard :=
  ⟨worldOf_pairwise, h, fun _ hp => holds_worldOf hp⟩

/-- The world of a choice is the least one in which the choice is true. -/
theorem worldOf_subset (hworld : world.IsPossible conflicts hard)
    (htrue : ∀ term ∈ chosen, world.satisfies term = true) :
    (worldOf hard chosen).atoms ⊆ world.atoms := by
  have hindicators : chosen.filterMap indicator? ⊆ world.indicators := by
    intro indicator hmem
    obtain ⟨term, hterm, hindicator⟩ := List.mem_filterMap.mp hmem
    cases term with
    | indicator other =>
        cases hindicator
        exact World.hasIndicator_iff.mp (htrue _ hterm)
    | constraint proposition => cases hindicator
  intro atom hatom
  obtain ⟨p, hp, hforced⟩ := World.mem_forcedBy_iff.mp hatom
  refine World.mem_of_forced? hworld.increasing ?_ hindicators hforced
  rcases List.mem_append.mp hp with hp | hp
  · exact hworld.holds p hp
  · obtain ⟨term, hterm, hconstraint⟩ := List.mem_filterMap.mp hp
    cases term with
    | indicator other => cases hconstraint
    | constraint proposition =>
        cases hconstraint
        exact htrue _ hterm

/-! ## The search -/

/-- The world of the first choice of the given size that causes no conflict. -/
def worldOfSize? (conflicts : List (List Nat)) (hard : List Proposition)
    (soft : List (SoftTerm Proposition Nat)) (size : Nat) : Option World :=
  (choose size soft).findSome? fun chosen =>
    let world := worldOf hard chosen
    if isConsistent conflicts world.atoms then some world else none

theorem bestWorld?_eq : bestWorld? conflicts hard soft =
    (List.range (soft.length + 1)).reverse.findSome? (worldOfSize? conflicts hard soft) :=
  rfl

theorem worldOfSize?_eq_none_iff {size : Nat} : worldOfSize? conflicts hard soft size = none ↔
    ∀ chosen, chosen.Sublist soft → chosen.length = size →
      ¬ Free conflicts (worldOf hard chosen).atoms := by
  simp [worldOfSize?, List.findSome?_eq_none_iff, mem_choose_iff, isConsistent_iff worldOf_pairwise]

theorem exists_choice_of_worldOfSize? {size : Nat}
    (h : worldOfSize? conflicts hard soft size = some world) :
    ∃ chosen, chosen.Sublist soft ∧ chosen.length = size ∧ world = worldOf hard chosen ∧
      Free conflicts world.atoms := by
  obtain ⟨chosen, hmem, hchosen⟩ := List.exists_of_findSome?_eq_some h
  obtain ⟨hsublist, hlength⟩ := mem_choose_iff.mp hmem
  simp only [Option.ite_none_right_eq_some, Option.some.injEq] at hchosen
  obtain ⟨hconsistent, rfl⟩ := hchosen
  exact ⟨chosen, hsublist, hlength, rfl, (isConsistent_iff worldOf_pairwise).mp hconsistent⟩

/-- A world of some size is found, and none of a larger size. -/
theorem exists_size_of_bestWorld? (h : bestWorld? conflicts hard soft = some world) :
    ∃ size, worldOfSize? conflicts hard soft size = some world ∧
      ∀ larger ≤ soft.length, size < larger → worldOfSize? conflicts hard soft larger = none := by
  rw [bestWorld?_eq, List.findSome?_eq_some_iff] at h
  obtain ⟨before, size, after, hsizes, hsize, hnone⟩ := h
  refine ⟨size, hsize, fun larger hle hlt => hnone larger ?_⟩
  have hmem : larger ∈ (List.range (soft.length + 1)).reverse := by
    rw [List.mem_reverse, List.mem_range]
    omega
  have hdecreasing : (List.range (soft.length + 1)).reverse.Pairwise (· > ·) :=
    List.pairwise_reverse.mpr List.pairwise_lt_range
  rw [hsizes] at hmem hdecreasing
  rcases List.mem_append.mp hmem with hmem | hmem
  · exact hmem
  · rcases List.mem_cons.mp hmem with heq | hmem
    · omega
    · have hafter := List.pairwise_cons.mp (List.pairwise_append.mp hdecreasing).2.1
      have hgt := hafter.1 _ hmem
      omega

/-- A choice that causes no conflict is found, and none that is larger. -/
theorem exists_choice_of_bestWorld? (h : bestWorld? conflicts hard soft = some world) :
    ∃ chosen, chosen.Sublist soft ∧ world = worldOf hard chosen ∧ Free conflicts world.atoms ∧
      ∀ larger, larger.Sublist soft → chosen.length < larger.length →
        ¬ Free conflicts (worldOf hard larger).atoms := by
  obtain ⟨size, hsize, hlarger⟩ := exists_size_of_bestWorld? h
  obtain ⟨chosen, hsublist, rfl, rfl, hfree⟩ := exists_choice_of_worldOfSize? hsize
  refine ⟨chosen, hsublist, rfl, hfree, fun larger hlarge hlt => ?_⟩
  exact worldOfSize?_eq_none_iff.mp (hlarger _ hlarge.length_le hlt) larger hlarge rfl

/-- The world is possible, and in no possible world more of the soft terms are true. -/
structure World.IsBest (conflicts : List (List Nat)) (hard : List Proposition)
    (soft : List (SoftTerm Proposition Nat)) (world : World) : Prop where
  possible : world.IsPossible conflicts hard
  countP_le : ∀ other : World, other.IsPossible conflicts hard →
    soft.countP other.satisfies ≤ soft.countP world.satisfies

/-- There is a best world if there is a possible one, and it is found. -/
theorem bestWorld?_spec (conflicts : List (List Nat)) (hard : List Proposition)
    (soft : List (SoftTerm Proposition Nat)) :
    match bestWorld? conflicts hard soft with
    | some world => world.IsBest conflicts hard soft
    | none => ∀ world : World, ¬ world.IsPossible conflicts hard := by
  split
  · rename_i world hworld
    obtain ⟨chosen, hsublist, rfl, hfree, hlarger⟩ := exists_choice_of_bestWorld? hworld
    refine ⟨isPossible_worldOf hfree, fun other hother => ?_⟩
    have htrue : ∀ term ∈ soft.filter other.satisfies, other.satisfies term = true :=
      fun term hterm => (List.mem_filter.mp hterm).2
    have hcounted : (soft.filter other.satisfies).length ≤ chosen.length := by
      by_contra hlt
      exact hlarger _ List.filter_sublist (Nat.lt_of_not_le hlt)
        (hother.free.mono (worldOf_subset hother htrue))
    calc soft.countP other.satisfies
      _ = (soft.filter other.satisfies).length := List.countP_eq_length_filter
      _ ≤ chosen.length := hcounted
      _ = chosen.countP (worldOf hard chosen).satisfies :=
        (List.countP_eq_length.mpr fun _ hterm => satisfies_worldOf hterm).symm
      _ ≤ soft.countP (worldOf hard chosen).satisfies := hsublist.countP_le
  · rename_i hnone
    intro world hworld
    rw [bestWorld?_eq, List.findSome?_eq_none_iff] at hnone
    have hempty := worldOfSize?_eq_none_iff.mp (hnone 0 (by simp)) [] (List.nil_sublist _) rfl
    exact hempty (hworld.free.mono (worldOf_subset hworld (by simp)))

end Infeasibility.Conflict
