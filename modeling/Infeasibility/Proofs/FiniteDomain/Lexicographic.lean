import Infeasibility.Proofs.FiniteDomain.Admissible
import Mathlib.Algebra.BigOperators.Group.List.Lemmas
import Mathlib.Data.List.Lex
import Mathlib.Order.Bounds.Basic

/-! # Lexicographic order of assignments

Assignments are compared by the first variable to which they give different values, be it along a
scope or among all variables. Numbers run through the assignments of a scope in the order of the
scope, and each assignment of the scope comes before all others that agree with it there. -/

namespace Infeasibility.FiniteDomain

/-! ## Comparing assignments -/

namespace Assignment

/-- The values in the order of the variables. -/
def integers (a : Assignment) : List Int :=
  a.values.toList.map Int32.toInt

theorem integers_injective : Function.Injective integers := by
  intro a b h
  have hlist : a.values.toList = b.values.toList :=
    List.map_injective_iff.mpr (fun _ _ => Int32.toInt_inj.mp) h
  have harray : a.values = b.values := Array.toList_inj.mp hlist
  cases a
  cases b
  cases harray
  rfl

/-- Assignments in lexicographic order. -/
instance : PartialOrder Assignment :=
  PartialOrder.lift integers integers_injective

/-- Assignments are equal if they give the same values. -/
theorem ext_value? {a b : Assignment} (h : ∀ v, a.value? v = b.value? v) : a = b := by
  have harray : a.values = b.values := Array.ext_getElem? h
  cases a
  cases b
  cases harray
  rfl

/-- Of two assignments to the same variables the lesser one has the smaller value where they first
differ. -/
theorem lt_iff_of_size_eq {a b : Assignment} (hsize : a.values.size = b.values.size) :
    a < b ↔ ∃ v, (∀ w < v, a.value? w = b.value? w) ∧
      ∃ x y, a.value? v = some x ∧ b.value? v = some y ∧ x < y := by
  have hlex : a < b ↔ a.integers < b.integers := List.lt_iff_lex_lt _ _
  rw [hlex, List.lt_iff_exists]
  constructor
  · rintro (⟨-, hshort⟩ | ⟨v, hva, hvb, hbefore, hless⟩)
    · simp [integers, hsize] at hshort
    · simp only [integers, List.length_map, Array.length_toList] at hva hvb
      refine ⟨v, fun w hw => ?_, a.values[v], b.values[v], ?_, ?_, ?_⟩
      · have hsame := hbefore w hw
        simp only [integers, List.getElem_map, Array.getElem_toList, Int32.toInt_inj] at hsame
        simp [value?, hw.trans hva, hw.trans hvb, hsame]
      · simp [value?, hva]
      · simp [value?, hvb]
      · simpa [integers, Int32.lt_iff_toInt_lt] using hless
  · rintro ⟨v, hbefore, x, y, hx, hy, hless⟩
    obtain ⟨hva, rfl⟩ := Array.getElem?_eq_some_iff.mp hx
    obtain ⟨hvb, rfl⟩ := Array.getElem?_eq_some_iff.mp hy
    refine .inr ⟨v, by simpa [integers] using hva, by simpa [integers] using hvb, ?_, ?_⟩
    · intro w hw
      have hsame := hbefore w hw
      simp only [value?, Array.getElem?_eq_getElem (hw.trans hva),
        Array.getElem?_eq_getElem (hw.trans hvb), Option.some.injEq] at hsame
      simp [integers, hsame]
    · simpa [integers, Int32.lt_iff_toInt_lt] using hless

/-- Of the variables of the scope to which the assignments give different values, the first one has
the smaller value under the former. -/
def PrecedesAlong (scope : List Var) (a b : Assignment) : Prop :=
  List.Lex (· < ·) (scope.filterMap a.value?) (scope.filterMap b.value?)

theorem PrecedesAlong.ne {scope : List Var} {a b : Assignment} (h : a.PrecedesAlong scope b) :
    a ≠ b := by
  rintro rfl
  exact List.lex_irrefl (fun _ => Int32.lt_irrefl) _ h

/-- Along variables in their own order, and if no others make a difference, this is the order of the
assignments. -/
theorem PrecedesAlong.lt {scope : List Var} {a b : Assignment} (hscope : scope.Pairwise (· < ·))
    (hsize : a.values.size = b.values.size) (hinside : ∀ v ∈ scope, v < a.values.size)
    (houtside : ∀ v ∉ scope, a.value? v = b.value? v) (h : a.PrecedesAlong scope b) : a < b := by
  rw [lt_iff_of_size_eq hsize]
  induction scope with
  | nil => cases h
  | cons v scope ih =>
      obtain ⟨hleast, hscope⟩ := List.pairwise_cons.mp hscope
      obtain ⟨hv, hinside⟩ := List.forall_mem_cons.mp hinside
      have hx : a.value? v = some a.values[v] := Array.getElem?_eq_getElem hv
      have hy : b.value? v = some b.values[v] := Array.getElem?_eq_getElem (hsize ▸ hv)
      rw [PrecedesAlong, List.filterMap_cons, List.filterMap_cons, hx, hy,
        List.cons_lex_cons_iff] at h
      rcases h with hless | ⟨hsame, hrest⟩
      · refine ⟨v, fun w hw => houtside w fun hmem => ?_, _, _, hx, hy, hless⟩
        rcases List.mem_cons.mp hmem with rfl | hmem
        · exact Nat.lt_irrefl _ hw
        · exact Nat.lt_asymm hw (hleast w hmem)
      · refine ih hscope hinside (fun w hw => ?_) hrest
        by_cases heq : w = v
        · rw [heq, hx, hy, hsame]
        · exact houtside w fun hmem => hw ((List.mem_cons.mp hmem).resolve_left heq)

end Assignment

/-! ## The order of the numbers -/

section Place

variable {axis : Axis} {axes : List Axis} {a : Assignment} {m n : Nat}

/-- The variable of the first axis gets the value of the most significant digit. -/
theorem value?_place_head (hsize : axis.var < a.values.size) (hn : n < volume (axis :: axes)) :
    n / volume axes < axis.domain.size ∧ (place (axis :: axes) n a).2.value? axis.var =
      some (axis.domain.value (n / volume axes)) := by
  have hdigit : n / volume axes < axis.domain.size :=
    (Nat.div_lt_iff_lt_mul (volume_pos axes)).mpr hn
  refine ⟨hdigit, ?_⟩
  rw [place_cons, Assignment.value?_set, place_fst, size_place, Nat.mod_eq_of_lt hdigit]
  simp [hsize]

/-- All other variables get the values of the remainder. -/
theorem value?_place_tail {v : Var} (hne : v ≠ axis.var) :
    (place (axis :: axes) n a).2.value? v = (place axes (n % volume axes) a).2.value? v := by
  have hsplit : place axes n a =
      place axes (n / volume axes * volume axes + n % volume axes) a := by
    rw [Nat.div_add_mod']
  rw [place_cons, Assignment.value?_set, if_neg hne.symm, hsplit, place_mul_add]

/-- Whatever the order of the axes is, numbers run through the values of their variables in the
lexicographic order of the axes. -/
theorem place_precedesAlong (hnodup : (axes.map Axis.var).Nodup)
    (hsize : ∀ axis ∈ axes, axis.var < a.values.size) (hlt : m < n) (hn : n < volume axes) :
    (place axes m a).2.PrecedesAlong (axes.map Axis.var) (place axes n a).2 := by
  induction axes generalizing m n with
  | nil =>
      have hone : n < 1 := hn
      omega
  | cons axis axes ih =>
      obtain ⟨hnot, hnodup⟩ := List.nodup_cons.mp hnodup
      obtain ⟨haxis, hsize⟩ := List.forall_mem_cons.mp hsize
      obtain ⟨hdigitm, hvaluem⟩ := value?_place_head haxis (hlt.trans hn)
      obtain ⟨hdigitn, hvaluen⟩ := value?_place_head haxis hn
      have htail : ∀ number,
          (axes.map Axis.var).filterMap (place (axis :: axes) number a).2.value? =
            (axes.map Axis.var).filterMap (place axes (number % volume axes) a).2.value? := by
        intro number
        refine List.filterMap_congr fun v hv => value?_place_tail ?_
        rintro rfl
        exact hnot hv
      rw [Assignment.PrecedesAlong, List.map_cons, List.filterMap_cons, List.filterMap_cons,
        hvaluem, hvaluen, htail, htail, List.cons_lex_cons_iff]
      rcases Nat.lt_or_eq_of_le (Nat.div_le_div_right (c := volume axes) hlt.le) with hless | hsame
      · left
        rw [Int32.lt_iff_toInt_lt, Domain.toInt_value hdigitm, Domain.toInt_value hdigitn]
        omega
      · have hrest : m % volume axes < n % volume axes := mod_lt_mod_of_div_eq hlt hsame
        exact .inr ⟨by rw [hsame], ih hnodup hsize hrest (Nat.mod_lt _ (volume_pos axes))⟩

/-- If the axes are in the order of the variables, this is the order of the assignments. -/
theorem place_lt_place (hincreasing : (axes.map Axis.var).Pairwise (· < ·))
    (hsize : ∀ axis ∈ axes, axis.var < a.values.size) (hlt : m < n) (hn : n < volume axes) :
    (place axes m a).2 < (place axes n a).2 := by
  have hprecedes := place_precedesAlong (hincreasing.imp Nat.ne_of_lt) hsize hlt hn
  refine hprecedes.lt hincreasing (by rw [size_place, size_place]) ?_ fun v hv => ?_
  · intro v hv
    obtain ⟨axis, haxis, rfl⟩ := List.mem_map.mp hv
    rw [size_place]
    exact hsize axis haxis
  · rw [value?_place_of_notMem hv, value?_place_of_notMem hv]

end Place

/-! ## The assignments of a scope -/

namespace Model

variable {model : Model} {scope : List Var} {axes : List Axis}

/-- How many values each variable of a scope may take. -/
def domainSizes (model : Model) (scope : List Var) : List Nat :=
  scope.filterMap fun v => (model.declared? v).map fun declared => declared.domain.size

/-- The assignments of some axes in the order of their numbers. -/
def assignments (model : Model) (axes : List Axis) : List Assignment :=
  (List.range (volume axes)).map (model.assignment axes)

@[simp] theorem length_assignments : (model.assignments axes).length = volume axes := by
  simp [assignments]

@[simp] theorem getElem_assignments {k : Nat} (hk : k < (model.assignments axes).length) :
    (model.assignments axes)[k] = model.assignment axes k := by
  simp [assignments]

/-- The list consists of the admissible assignments under which all variables outside the scope
have their lower bounds, each of them once and in lexicographic order. -/
structure InOrder (model : Model) (scope : List Var) (assignments : List Assignment) : Prop where
  increasing : assignments.Pairwise (· < ·)
  mem_iff : ∀ a, a ∈ assignments ↔
    model.Admits a ∧ ∀ v ∉ scope, a.value? v = model.lowerBounds.value? v
  length_eq : assignments.length = (model.domainSizes scope).prod

theorem Spans.volume_eq (h : model.Spans scope axes) :
    volume axes = (model.domainSizes scope).prod := by
  induction h with
  | nil => rfl
  | cons haxis _ ih =>
      obtain ⟨-, declared, hdeclared, hdomain⟩ := axis?_eq_some_iff.mp haxis
      rw [volume, ih, domainSizes, domainSizes, List.filterMap_cons, hdeclared, Option.map_some,
        List.prod_cons, hdomain]

/-- The variables of the axes are variables of the model. -/
theorem Spans.lt_size_lowerBounds (h : model.Spans scope axes) :
    ∀ axis ∈ axes, axis.var < model.lowerBounds.values.size := by
  intro axis haxis
  rw [model.admits_lowerBounds.size_eq]
  refine h.declares axis.var ?_
  rw [← h.map_var]
  exact List.mem_map_of_mem haxis

theorem Spans.assignment_lt (h : model.Spans scope axes) (hscope : scope.Pairwise (· < ·))
    {m n : Nat} (hlt : m < n) (hn : n < volume axes) :
    model.assignment axes m < model.assignment axes n := by
  rw [← h.map_var] at hscope
  exact place_lt_place hscope h.lt_size_lowerBounds hlt hn

theorem Spans.assignment_le (h : model.Spans scope axes) (hscope : scope.Pairwise (· < ·))
    {m n : Nat} (hle : m ≤ n) (hn : n < volume axes) :
    model.assignment axes m ≤ model.assignment axes n := by
  rcases Nat.lt_or_eq_of_le hle with hlt | rfl
  · exact (h.assignment_lt hscope hlt hn).le
  · exact le_refl _

theorem Spans.value?_of_notMem (h : model.Spans scope axes) (number : Nat) {v : Var}
    (hv : v ∉ scope) :
    (model.assignment axes number).value? v = model.lowerBounds.value? v := by
  rw [← h.map_var] at hv
  exact value?_place_of_notMem hv

/-- The numbered assignments of a scope are all its assignments. -/
theorem Spans.mem_assignments_iff (h : model.Spans scope axes) (hscope : scope.Nodup)
    {a : Assignment} :
    a ∈ model.assignments axes ↔
      model.Admits a ∧ ∀ v ∉ scope, a.value? v = model.lowerBounds.value? v := by
  rw [assignments, List.mem_map]
  constructor
  · rintro ⟨number, -, rfl⟩
    exact ⟨h.admits number, fun v hv => h.value?_of_notMem number hv⟩
  · rintro ⟨ha, hlower⟩
    obtain ⟨number, hnumber, hagree⟩ := h.exists_number hscope ha
    refine ⟨number, List.mem_range.mpr hnumber, Assignment.ext_value? fun v => ?_⟩
    by_cases hv : v ∈ scope
    · exact hagree v hv
    · rw [h.value?_of_notMem number hv, hlower v hv]

/-- If the scope is in the order of the variables, then so are its numbered assignments. -/
theorem Spans.inOrder (h : model.Spans scope axes) (hscope : scope.Pairwise (· < ·)) :
    model.InOrder scope (model.assignments axes) := by
  constructor
  · rw [assignments, List.pairwise_map]
    refine List.pairwise_lt_range.imp_of_mem fun _ hn hlt => ?_
    exact h.assignment_lt hscope hlt (List.mem_range.mp hn)
  · exact fun a => h.mem_assignments_iff (hscope.imp Nat.ne_of_lt)
  · rw [length_assignments, h.volume_eq]

/-- The list consists of the admissible assignments under which all variables outside the scope
have their lower bounds, each of them once and in the lexicographic order of the scope. -/
structure IsProduct (model : Model) (scope : List Var) (assignments : List Assignment) : Prop where
  increasing : assignments.Pairwise (Assignment.PrecedesAlong scope)
  nodup : assignments.Nodup
  mem_iff : ∀ a, a ∈ assignments ↔
    model.Admits a ∧ ∀ v ∉ scope, a.value? v = model.lowerBounds.value? v
  length_eq : assignments.length = (model.domainSizes scope).prod

/-- In whatever order the variables of a scope are given, its numbered assignments are the product
of their domains. -/
theorem Spans.isProduct (h : model.Spans scope axes) (hscope : scope.Nodup) :
    model.IsProduct scope (model.assignments axes) := by
  have hincreasing : (model.assignments axes).Pairwise (Assignment.PrecedesAlong scope) := by
    rw [assignments, List.pairwise_map]
    refine List.pairwise_lt_range.imp_of_mem fun _ hn hlt => ?_
    have hnodup : (axes.map Axis.var).Nodup := h.map_var.symm ▸ hscope
    have hprecedes := place_precedesAlong hnodup h.lt_size_lowerBounds hlt (List.mem_range.mp hn)
    rwa [h.map_var] at hprecedes
  constructor
  · exact hincreasing
  · exact hincreasing.imp Assignment.PrecedesAlong.ne
  · exact fun a => h.mem_assignments_iff hscope
  · rw [length_assignments, h.volume_eq]

/-- An assignment with lower bounds outside a scope comes before all that agree with it there. -/
theorem Admits.le_of_agrees {a b : Assignment} (ha : model.Admits a) (hb : model.Admits b)
    (hagree : ∀ v ∈ scope, a.value? v = b.value? v)
    (hlower : ∀ v ∉ scope, a.value? v = model.lowerBounds.value? v) : a ≤ b := by
  by_cases heq : a = b
  · exact heq.le
  have hdiff : ∃ v, a.value? v ≠ b.value? v := by
    by_contra hsame
    exact heq (Assignment.ext_value? fun v => not_not.mp (not_exists.mp hsame v))
  have hfirst := Nat.find_spec hdiff
  have hbefore : ∀ w < Nat.find hdiff, a.value? w = b.value? w :=
    fun w hw => not_not.mp (Nat.find_min hdiff hw)
  have hv : Nat.find hdiff < model.size := by
    by_contra hle
    have hnone : ∀ c : Assignment, model.Admits c → c.value? (Nat.find hdiff) = none := by
      intro c hc
      exact Array.getElem?_eq_none (by rw [hc.size_eq]; omega)
    exact hfirst ((hnone a ha).trans (hnone b hb).symm)
  obtain ⟨declared, hdeclared⟩ := exists_declared hv
  obtain ⟨value, hmem, hvalue⟩ := hb.mem_domain _ declared hdeclared
  have hbound : a.value? (Nat.find hdiff) = some declared.domain.lower := by
    rw [hlower _ fun hmem => hfirst (hagree _ hmem), value?_lowerBounds hdeclared]
  have hne : declared.domain.lower ≠ value := by
    rintro rfl
    exact hfirst (hbound.trans hvalue.symm)
  refine ((Assignment.lt_iff_of_size_eq (by rw [ha.size_eq, hb.size_eq])).mpr ?_).le
  exact ⟨_, hbefore, _, _, hbound, hvalue, Int32.lt_of_le_of_ne hmem.1 hne⟩

/-- Each admissible assignment agrees on a scope with a numbered one that does not come after it. -/
theorem Spans.exists_number_le (h : model.Spans scope axes) (hscope : scope.Nodup)
    {a : Assignment} (ha : model.Admits a) :
    ∃ number < volume axes, (∀ v ∈ scope, (model.assignment axes number).value? v = a.value? v) ∧
      model.assignment axes number ≤ a := by
  obtain ⟨number, hnumber, hagree⟩ := h.exists_number hscope ha
  exact ⟨number, hnumber, hagree,
    (h.admits number).le_of_agrees ha hagree fun v hv => h.value?_of_notMem number hv⟩

end Model

end Infeasibility.FiniteDomain
