import Infeasibility.Proofs.FiniteDomain.Reification

/-! # The search with indicators

The indicators are the least significant digits of the numbered assignments. An assignment of the
other variables therefore comes with a block of consecutive numbers, one for each choice of
indicators, and the search with indicators concurs with the search without them. -/

namespace Infeasibility.FiniteDomain

/-! ## Axes of indicators -/

def indicatorAxes (first count : Nat) : List Axis :=
  (List.range' first count).map fun v => ⟨v, .boolean⟩

theorem map_var_indicatorAxes (first count : Nat) :
    (indicatorAxes first count).map Axis.var = List.range' first count := by
  rw [indicatorAxes, List.map_map]
  exact List.map_id _

namespace Model

variable {model : Model} {scope : List Var} {axes : List Axis} {count : Nat}

theorem spans_withIndicators (h : model.Spans scope axes) :
    (model.withIndicators count).Spans (scope ++ List.range' model.size count)
      (axes ++ indicatorAxes model.size count) := by
  refine List.rel_append (h.imp fun v axis haxis => ?_) ?_
  · obtain ⟨rfl, declared, hdeclared, hdomain⟩ := axis?_eq_some_iff.mp haxis
    refine axis?_eq_some_iff.mpr ⟨rfl, declared, ?_, hdomain⟩
    rw [declared?_withIndicators_of_lt (lt_size_of_declared hdeclared), hdeclared]
  · rw [indicatorAxes, List.forall₂_map_right_iff, List.forall₂_same]
    intro v hv
    exact axis?_eq_some_iff.mpr ⟨rfl, _, declared?_withIndicators_of_mem hv, rfl⟩

theorem value?_lowerBounds_withIndicators {v : Var} (h : v < model.size) :
    (model.withIndicators count).lowerBounds.value? v = model.lowerBounds.value? v := by
  have hdeclared : (model.withIndicators count).declarations[v]? = model.declarations[v]? :=
    declared?_withIndicators_of_lt h
  simp [lowerBounds, Assignment.value?, hdeclared]

/-! ## Blocks of numbered assignments -/

/-- An assignment with indicators is numbered within the block of one without them. -/
def linkedAssignment (model : Model) (axes : List Axis) (count number digit : Nat) : Assignment :=
  (model.withIndicators count).assignment (axes ++ indicatorAxes model.size count)
    (number * volume (indicatorAxes model.size count) + digit)

theorem linkedAssignment_eq (number : Nat) {digit : Nat}
    (hdigit : digit < volume (indicatorAxes model.size count)) :
    model.linkedAssignment axes count number digit =
      (place axes number (place (indicatorAxes model.size count) digit
        (model.withIndicators count).lowerBounds).2).2 := by
  rw [linkedAssignment, assignment, place_append_add _ _ _ hdigit]

/-- Variables of the model have the same values throughout a block. -/
theorem value?_linkedAssignment_of_lt (number : Nat) {digit : Nat}
    (hdigit : digit < volume (indicatorAxes model.size count)) {v : Var} (hv : v < model.size) :
    (model.linkedAssignment axes count number digit).value? v =
      (model.assignment axes number).value? v := by
  rw [linkedAssignment_eq number hdigit, assignment]
  refine value?_place_congr ?_
  rw [value?_place_of_notMem, value?_lowerBounds_withIndicators hv]
  rw [map_var_indicatorAxes, List.mem_range'_1]
  exact fun h => absurd hv (Nat.not_lt_of_le h.1)

/-- Indicators have the values that the number within the block gives them. -/
theorem value?_linkedAssignment_of_ge (h : model.Spans scope axes) (number : Nat) {digit : Nat}
    (hdigit : digit < volume (indicatorAxes model.size count)) {v : Var} (hv : model.size ≤ v) :
    (model.linkedAssignment axes count number digit).value? v =
      (place (indicatorAxes model.size count) digit
        (model.withIndicators count).lowerBounds).2.value? v := by
  rw [linkedAssignment_eq number hdigit, value?_place_of_notMem]
  rw [h.map_var]
  exact fun hmem => absurd (h.declares v hmem) (Nat.not_lt_of_le hv)

theorem admits_linkedAssignment (h : model.Spans scope axes) (number digit : Nat) :
    (model.withIndicators count).Admits (model.linkedAssignment axes count number digit) :=
  (spans_withIndicators h).admits _

/-- Every assignment of a block is one of the choices of indicators. -/
theorem exists_extends (h : model.Spans scope axes) (number : Nat) {digit : Nat}
    (hdigit : digit < volume (indicatorAxes model.size count)) :
    ∃ f, Extends model count f (model.assignment axes number)
      (model.linkedAssignment axes count number digit) := by
  have hadmits : (model.withIndicators count).Admits
      (model.linkedAssignment axes count number digit) :=
    admits_linkedAssignment h number digit
  refine ⟨fun position => (model.linkedAssignment axes count number digit).makesTrue
    (.literal (model.size + position)), hadmits,
    fun v hv => value?_linkedAssignment_of_lt number hdigit hv, fun position hlt => ?_⟩
  have hv : model.size + position < (model.withIndicators count).size := by
    rw [size_withIndicators]
    exact Nat.add_lt_add_left hlt _
  obtain ⟨value, hvalue⟩ := Option.isSome_iff_exists.mp (hadmits.isSome_value? hv)
  simp [Assignment.makesTrue, Assignment.eval, Assignment.isTrue, Assignment.read, hvalue]

/-- Every choice of indicators is made in each block. -/
theorem exists_digit_extends (h : model.Spans scope axes) (number : Nat) (f : Nat → Bool) :
    ∃ digit < volume (indicatorAxes model.size count),
      Extends model count f (model.assignment axes number)
        (model.linkedAssignment axes count number digit) := by
  let value : Var → Int32 := fun v => if f (v - model.size) then 1 else 0
  let target : Assignment := ⟨(Array.range (model.size + count)).map value⟩
  have htarget : ∀ v < model.size + count, target.value? v = some (value v) := by
    intro v hv
    simp [target, Assignment.value?, hv]
  have hnodup : ((indicatorAxes model.size count).map Axis.var).Nodup := by
    rw [map_var_indicatorAxes]
    exact List.nodup_range'
  obtain ⟨digit, hdigit, hagree⟩ := exists_place_eq
    (model.withIndicators count).lowerBounds target hnodup
    (by rw [(admits_lowerBounds _).size_eq]; simp [target]) (by
      intro axis haxis
      obtain ⟨v, hv, rfl⟩ := List.mem_map.mp haxis
      refine ⟨value v, ?_, htarget v (List.mem_range'_1.mp hv).2⟩
      simp only [value]
      split <;> decide)
  refine ⟨digit, hdigit, admits_linkedAssignment h number digit,
    fun v hv => value?_linkedAssignment_of_lt number hdigit hv, fun position hlt => ?_⟩
  have hlt' : model.size + position < model.size + count := Nat.add_lt_add_left hlt _
  have hmem : model.size + position ∈ (indicatorAxes model.size count).map Axis.var := by
    rw [map_var_indicatorAxes]
    exact List.mem_range'_1.mpr ⟨Nat.le_add_right _ _, hlt'⟩
  have hvalue : (model.linkedAssignment axes count number digit).value? (model.size + position) =
      some (value (model.size + position)) := by
    rw [value?_linkedAssignment_of_ge h number hdigit (Nat.le_add_right _ _), hagree _ hmem,
      htarget _ hlt']
  have hposition : value (model.size + position) = if f position then 1 else 0 := by
    simp [value]
  rw [Assignment.eval, Assignment.isTrue, Assignment.read, hvalue, hposition]
  cases f position <;> rfl

/-- The numbers of a block make up all choices for the assignment without indicators. -/
theorem isBlock_linkedAssignment (h : model.Spans scope axes) (number : Nat) :
    IsBlock model count (model.assignment axes number) (volume (indicatorAxes model.size count))
      (model.linkedAssignment axes count number) :=
  ⟨fun _ hdigit => exists_extends h number hdigit, fun f => exists_digit_extends h number f⟩

end Model

/-! ## The two searches -/

section

variable {solver : Solver} {hard soft : List Constraint}

/-- The indicators come last in the scope of the linked constraints. -/
theorem scope_linked (hdeclared : ∀ c ∈ hard ++ soft, solver.model.Declares c.vars) :
    Constraint.scope (hard ++ links solver.model.size soft ++
        literals solver.model.size soft.length) =
      Constraint.scope (hard ++ soft) ++ List.range' solver.model.size soft.length := by
  refine List.Pairwise.eq_of_mem_iff (Ascending.ofList_pairwise _) ?_ fun v => ?_
  · refine List.pairwise_append.mpr
      ⟨Ascending.ofList_pairwise _, List.pairwise_lt_range', fun v hv w hw => ?_⟩
    obtain ⟨c, hc, hvar⟩ := Constraint.mem_scope_iff.mp hv
    exact Nat.lt_of_lt_of_le (hdeclared c hc v hvar) (List.mem_range'_1.mp hw).1
  · rw [Constraint.mem_scope_iff, List.mem_append, Constraint.mem_scope_iff]
    constructor
    · rintro ⟨c, hc, hv⟩
      rcases List.mem_append.mp hc with hc | hc
      · rcases List.mem_append.mp hc with hc | hc
        · exact .inl ⟨c, List.mem_append_left _ hc, hv⟩
        · obtain ⟨position, hlt, rfl⟩ := mem_links_iff.mp hc
          rcases List.mem_cons.mp hv with rfl | hv
          · exact .inr (List.mem_range'_1.mpr
              ⟨Nat.le_add_right _ _, Nat.add_lt_add_left hlt _⟩)
          · exact .inl ⟨_, List.mem_append_right _ (List.getElem_mem hlt), hv⟩
      · obtain ⟨w, hw, rfl⟩ := List.mem_map.mp hc
        rw [List.mem_singleton.mp hv]
        exact .inr hw
    · rintro (⟨c, hc, hv⟩ | hv)
      · rcases List.mem_append.mp hc with hc | hc
        · exact ⟨c, by simp [hc], hv⟩
        · obtain ⟨position, hlt, rfl⟩ := List.mem_iff_getElem.mp hc
          refine ⟨_, List.mem_append_left _ (List.mem_append_right _
            (mem_links_iff.mpr ⟨position, hlt, rfl⟩)), List.mem_cons_of_mem _ hv⟩
      · exact ⟨.literal v, List.mem_append_right _ (List.mem_map_of_mem hv),
          List.mem_singleton_self v⟩

/-- The search with indicators concurs with the search without them. -/
theorem ascent_concurs (hdeclared : ∀ c ∈ hard ++ soft, solver.model.Declares c.vars)
    (hinterrupted : solver.enumeration.interrupted = false) :
    Concurs
      ((solver.withIndicators soft.length).ascent (hard ++ links solver.model.size soft)
        (literals solver.model.size soft.length))
      (solver.ascent hard soft) := by
  obtain ⟨hhard, hsoft⟩ := List.forall_mem_append.mp hdeclared
  obtain ⟨axes, haxes⟩ := Model.exists_spans (Constraint.declares_scope_iff.mpr hdeclared)
  have hlinked : (solver.model.withIndicators soft.length).Spans
      (Constraint.scope (hard ++ soft) ++ List.range' solver.model.size soft.length)
      (axes ++ indicatorAxes solver.model.size soft.length) :=
    Model.spans_withIndicators haxes
  rw [← scope_linked hdeclared] at hlinked
  have hcoarse := solver.ascent_ends haxes hinterrupted
  have hfine := (solver.withIndicators soft.length).ascent_ends hlinked hinterrupted
  have hlength : (literals solver.model.size soft.length).length = soft.length := by
    simp [literals]
  rw [hlength, volume_append] at hfine
  refine AscentEnds.concurs (volume_pos _) (fun number _ => ?_) hfine hcoarse
  exact (Model.isBlock_linkedAssignment haxes number).mirrors_look hhard hsoft
    (haxes.admits number)

end

end Infeasibility.FiniteDomain
