import Infeasibility.Proofs.Diagnosis.Order
import Infeasibility.Proofs.FiniteDomain.Evaluation
import Infeasibility.Proofs.FiniteDomain.Numbering

/-! # Admissible assignments

A model admits the assignments that give each of its variables a value of its domain. Constraints
are solvable if they are true under one of these. The numbered assignments of a scope are
admissible, and as good as all others for constraints over the scope. -/

namespace Infeasibility.FiniteDomain

namespace Model

/-- Every variable of the model has a value of its domain, and nothing else has a value. -/
structure Admits (model : Model) (a : Assignment) : Prop where
  size_eq : a.values.size = model.size
  mem_domain : ∀ v declared, model.declared? v = some declared →
    ∃ value ∈ declared.domain, a.value? v = some value

/-- Some admissible assignment makes all constraints true, and none of them an error. -/
def Solvable (model : Model) (constraints : List Constraint) : Prop :=
  ∃ a, model.Admits a ∧ ∀ c ∈ constraints, a.eval c = .ok true

theorem hereditary_solvable (model : Model) : Hereditary model.Solvable := by
  rintro xs ys hsublist ⟨a, ha, htrue⟩
  exact ⟨a, ha, fun c hc => htrue c (hsublist.subset hc)⟩

/-- All variables occur in the model. -/
def Declares (model : Model) (scope : List Var) : Prop :=
  ∀ v ∈ scope, v < model.size

instance (model : Model) (scope : List Var) : Decidable (model.Declares scope) :=
  inferInstanceAs (Decidable (∀ v ∈ scope, v < model.size))

variable {model : Model}

theorem exists_declared {v : Var} (h : v < model.size) :
    ∃ declared, model.declared? v = some declared :=
  ⟨_, Array.getElem?_eq_getElem h⟩

theorem lt_size_of_declared {v : Var} {declared : Variable}
    (h : model.declared? v = some declared) : v < model.size :=
  (Array.getElem?_eq_some_iff.mp h).1

theorem Admits.isSome_value? {a : Assignment} (h : model.Admits a) {v : Var}
    (hv : v < model.size) : (a.value? v).isSome := by
  obtain ⟨declared, hdeclared⟩ := exists_declared hv
  obtain ⟨value, -, hvalue⟩ := h.mem_domain v declared hdeclared
  rw [hvalue]
  rfl

theorem value?_lowerBounds {v : Var} {declared : Variable}
    (h : model.declared? v = some declared) :
    model.lowerBounds.value? v = some declared.domain.lower := by
  have hvalue : model.declarations[v]? = some declared := h
  simp [lowerBounds, Assignment.value?, hvalue]

/-- The lower bounds are in their domains. -/
theorem admits_lowerBounds (model : Model) : model.Admits model.lowerBounds := by
  constructor
  · simp [lowerBounds, size]
  · intro v declared hdeclared
    exact ⟨declared.domain.lower, declared.domain.lower_mem, value?_lowerBounds hdeclared⟩

theorem solvable_nil (model : Model) : model.Solvable [] :=
  ⟨model.lowerBounds, model.admits_lowerBounds, by simp⟩

/-! ## Axes of a scope -/

/-- The axes are those of the variables of a scope. -/
def Spans (model : Model) (scope : List Var) (axes : List Axis) : Prop :=
  List.Forall₂ (fun v axis => model.axis? v = some axis) scope axes

theorem axis?_eq_some_iff {v : Var} {axis : Axis} :
    model.axis? v = some axis ↔
      axis.var = v ∧ ∃ declared, model.declared? v = some declared ∧
        declared.domain = axis.domain := by
  rw [axis?, Option.map_eq_some_iff]
  constructor
  · rintro ⟨declared, hdeclared, rfl⟩
    exact ⟨rfl, declared, hdeclared, rfl⟩
  · rintro ⟨rfl, declared, hdeclared, hdomain⟩
    exact ⟨declared, hdeclared, by rw [hdomain]⟩

variable {scope : List Var} {axes : List Axis}

theorem Spans.map_var (h : model.Spans scope axes) : axes.map Axis.var = scope := by
  induction h with
  | nil => rfl
  | cons haxis _ ih => rw [List.map_cons, ih, (axis?_eq_some_iff.mp haxis).1]

theorem Spans.axis?_of_mem (h : model.Spans scope axes) {axis : Axis} (hmem : axis ∈ axes) :
    model.axis? axis.var = some axis := by
  induction h with
  | nil => exact absurd hmem List.not_mem_nil
  | cons haxis _ ih =>
      rcases List.mem_cons.mp hmem with rfl | hmem
      · rw [(axis?_eq_some_iff.mp haxis).1, haxis]
      · exact ih hmem

theorem Spans.declares (h : model.Spans scope axes) : model.Declares scope := by
  intro v hv
  rw [← h.map_var] at hv
  obtain ⟨axis, haxis, rfl⟩ := List.mem_map.mp hv
  obtain ⟨-, declared, hdeclared, -⟩ := axis?_eq_some_iff.mp (h.axis?_of_mem haxis)
  exact lt_size_of_declared hdeclared

theorem exists_spans (h : model.Declares scope) : ∃ axes, model.Spans scope axes := by
  induction scope with
  | nil => exact ⟨[], .nil⟩
  | cons v scope ih =>
      obtain ⟨hv, hscope⟩ := List.forall_mem_cons.mp h
      obtain ⟨declared, hdeclared⟩ := exists_declared hv
      obtain ⟨axes, haxes⟩ := ih hscope
      have haxis : model.axis? v = some ⟨v, declared.domain⟩ :=
        axis?_eq_some_iff.mpr ⟨rfl, declared, hdeclared, rfl⟩
      exact ⟨_ :: axes, .cons haxis haxes⟩

/-! ## Numbered assignments -/

theorem Spans.admits (h : model.Spans scope axes) (number : Nat) :
    model.Admits (model.assignment axes number) := by
  have hbounds := model.admits_lowerBounds
  constructor
  · rw [assignment, size_place, hbounds.size_eq]
  · intro v declared hdeclared
    by_cases hmem : v ∈ axes.map Axis.var
    · have hv : v < model.lowerBounds.values.size := by
        rw [hbounds.size_eq]
        exact lt_size_of_declared hdeclared
      obtain ⟨axis, haxis, rfl, value, hvalue, hplace⟩ := value?_place_of_mem number hmem hv
      obtain ⟨-, declared', hdeclared', hdomain⟩ :=
        axis?_eq_some_iff.mp (h.axis?_of_mem haxis)
      obtain rfl : declared = declared' := Option.some.inj (hdeclared.symm.trans hdeclared')
      exact ⟨value, hdomain ▸ hvalue, hplace⟩
    · rw [assignment, value?_place_of_notMem hmem]
      exact hbounds.mem_domain v declared hdeclared

/-- Each admissible assignment agrees on the scope with one that has a number. -/
theorem Spans.exists_number (h : model.Spans scope axes) (hscope : scope.Nodup)
    {a : Assignment} (ha : model.Admits a) :
    ∃ number < volume axes, ∀ v ∈ scope,
      (model.assignment axes number).value? v = a.value? v := by
  rw [← h.map_var] at hscope ⊢
  refine exists_place_eq _ _ hscope ?_ fun axis haxis => ?_
  · rw [model.admits_lowerBounds.size_eq, ha.size_eq]
  · obtain ⟨-, declared, hdeclared, hdomain⟩ := axis?_eq_some_iff.mp (h.axis?_of_mem haxis)
    rw [← hdomain]
    exact ha.mem_domain axis.var declared hdeclared

end Model

/-! ## Scopes -/

namespace Constraint

theorem mem_scope_iff {v : Var} {constraints : List Constraint} :
    v ∈ scope constraints ↔ ∃ c ∈ constraints, v ∈ c.vars := by
  rw [scope, Ascending.mem_ofList, varsOfAll_eq_flatMap, List.mem_flatMap]

theorem scope_pairwise (constraints : List Constraint) :
    (scope constraints).Pairwise (· < ·) :=
  Ascending.ofList_pairwise _

theorem scope_nodup (constraints : List Constraint) : (scope constraints).Nodup :=
  (scope_pairwise constraints).imp Nat.ne_of_lt

theorem declares_scope_iff {model : Model} {constraints : List Constraint} :
    model.Declares (scope constraints) ↔ ∀ c ∈ constraints, model.Declares c.vars := by
  constructor
  · intro h c hc v hv
    exact h v (mem_scope_iff.mpr ⟨c, hc, hv⟩)
  · intro h v hv
    obtain ⟨c, hc, hmem⟩ := mem_scope_iff.mp hv
    exact h c hc v hmem

end Constraint

end Infeasibility.FiniteDomain
