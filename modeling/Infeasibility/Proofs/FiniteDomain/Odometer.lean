import Infeasibility.Proofs.FiniteDomain.Enumeration
import Infeasibility.Proofs.FiniteDomain.Lexicographic

/-! # From one assignment to the next

The assignments of a scope can be visited without their numbers, as an odometer counts: the last
variable that is below its upper bound gets its next value, and those after it start again from
their lower bounds. This leads from each number to the next, so that such a walk ends where the
enumeration by numbers does, and no value leaves its domain on the way. -/

namespace Infeasibility.FiniteDomain

/-! ## The next value -/

namespace Domain

variable {domain : Domain} {index : Nat}

theorem value_zero : domain.value 0 = domain.lower := by
  rw [value, Int.natCast_zero, Int.add_zero, Int32.ofInt_toInt]

theorem value_add_one : domain.value index + 1 = domain.value (index + 1) := by
  have hsum : domain.lower.toInt + ↑(index + 1) = domain.lower.toInt + ↑index + 1 := by omega
  rw [value, value, hsum, Int32.ofInt_add (_ + _)]
  rfl

theorem value_lt_upper_iff (h : index < domain.size) :
    domain.value index < domain.upper ↔ index + 1 < domain.size := by
  have hle := Int32.le_iff_toInt_le.mp domain.lower_le_upper
  rw [Int32.lt_iff_toInt_lt, toInt_value h, size]
  omega

/-- A value below the upper bound has a successor, which is in the domain as well. -/
theorem toInt_add_one {value : Int32} (h : value ∈ domain) (hlt : value < domain.upper) :
    (value + 1).toInt = value.toInt + 1 ∧ value + 1 ∈ domain := by
  obtain ⟨index, hindex, rfl⟩ := exists_value_eq h
  have hnext := (value_lt_upper_iff hindex).mp hlt
  rw [value_add_one]
  refine ⟨?_, value_mem hnext⟩
  rw [toInt_value hnext, toInt_value hindex]
  omega

end Domain

/-! ## The next assignment -/

/-- The next assignment, if the first variable is the least significant one: variables at their
upper bounds go back to their lower bounds, up to one that is below and gets its next value. -/
def Model.advance (model : Model) : List Var → Assignment → Option Assignment
  | [], _ => none
  | v :: scope, a =>
    match model.axis? v, a.value? v with
    | some axis, some value =>
      if value < axis.domain.upper then
        some (a.set v (value + 1))
      else
        model.advance scope (a.set v axis.domain.lower)
    | _, _ => none

namespace Assignment

theorem set_set (a : Assignment) (v : Var) (first second : Int32) :
    (a.set v first).set v second = a.set v second := by
  refine ext_value? fun w => ?_
  rw [value?_set, value?_set, value?_set, size_set]
  split <;> rfl

end Assignment

theorem place_set {axes : List Axis} {v : Var} (h : v ∉ axes.map Axis.var) (number : Nat)
    (a : Assignment) (value : Int32) :
    (place axes number a).2.set v value = (place axes number (a.set v value)).2 := by
  refine Assignment.ext_value? fun w => ?_
  rw [Assignment.value?_set]
  by_cases heq : v = w
  · subst heq
    rw [value?_place_of_notMem h, value?_place_of_notMem h, Assignment.value?_set, size_place]
  · rw [if_neg heq]
    refine value?_place_congr ?_
    rw [Assignment.value?_set, if_neg heq]

theorem volume_singleton (axis : Axis) : volume [axis] = axis.domain.size :=
  Nat.mul_one _

theorem place_concat (axes : List Axis) (axis : Axis) (quotient : Nat) {digit : Nat}
    (h : digit < axis.domain.size) (a : Assignment) :
    place (axes ++ [axis]) (quotient * axis.domain.size + digit) a =
      place axes quotient (a.set axis.var (axis.domain.value digit)) := by
  rw [← volume_singleton] at h ⊢
  rw [place_append_add axes [axis] quotient h, place_cons]
  change place axes quotient (a.set axis.var (axis.domain.value (digit % axis.domain.size))) = _
  rw [Nat.mod_eq_of_lt (volume_singleton axis ▸ h)]

theorem volume_concat (axes : List Axis) (axis : Axis) :
    volume (axes ++ [axis]) = volume axes * axis.domain.size := by
  rw [volume_append, volume_singleton]

namespace Model

variable {model : Model}

/-- Step by step, the digits of a number become those of the next one. -/
theorem advance_place {digits : List Axis}
    (hmodel : ∀ axis ∈ digits, model.axis? axis.var = some axis)
    (hnodup : (digits.map Axis.var).Nodup) {a : Assignment}
    (hsize : ∀ axis ∈ digits, axis.var < a.values.size) (number : Nat)
    (hnumber : number < volume digits.reverse) :
    model.advance (digits.map Axis.var) (place digits.reverse number a).2 =
      if number + 1 < volume digits.reverse then some (place digits.reverse (number + 1) a).2
      else none := by
  induction digits generalizing a number with
  | nil =>
      have hone : number < 1 := hnumber
      obtain rfl : number = 0 := by omega
      rfl
  | cons axis digits ih =>
      obtain ⟨haxis, hmodel⟩ := List.forall_mem_cons.mp hmodel
      obtain ⟨hnot, hnodup⟩ := List.nodup_cons.mp hnodup
      obtain ⟨hvar, hsize⟩ := List.forall_mem_cons.mp hsize
      have hnot' : axis.var ∉ digits.reverse.map Axis.var := by simpa using hnot
      rw [List.reverse_cons, volume_concat] at hnumber ⊢
      obtain ⟨quotient, digit, hquotient, hdigit, rfl⟩ :
          ∃ quotient digit, quotient < volume digits.reverse ∧ digit < axis.domain.size ∧
            number = quotient * axis.domain.size + digit :=
        ⟨_, _, div_mod_of_lt hnumber⟩
      have hvalue : (place digits.reverse quotient
          (a.set axis.var (axis.domain.value digit))).2.value? axis.var =
            some (axis.domain.value digit) := by
        rw [value?_place_of_notMem hnot', Assignment.value?_set, if_pos rfl, if_pos hvar]
      rw [place_concat _ _ _ hdigit, List.map_cons, advance, haxis, hvalue]
      simp only [place_set hnot', Assignment.set_set, Domain.value_lt_upper_iff hdigit]
      by_cases hnext : digit + 1 < axis.domain.size
      · -- The digit is increased, and all others stay.
        have hlt : quotient * axis.domain.size + (digit + 1) <
            volume digits.reverse * axis.domain.size := mul_add_lt hquotient hnext
        rw [if_pos hnext, Domain.value_add_one, Nat.add_assoc, place_concat _ _ _ hnext, if_pos hlt]
      · -- The digit starts again from zero, and the rest of the number is increased.
        have hcarry : quotient * axis.domain.size + digit + 1 =
            (quotient + 1) * axis.domain.size + 0 := by
          rw [Nat.succ_mul]
          omega
        have hlower : (a.set axis.var axis.domain.lower) =
            a.set axis.var (axis.domain.value 0) := by
          rw [Domain.value_zero]
        have hsize' : ∀ other ∈ digits,
            other.var < (a.set axis.var (axis.domain.value 0)).values.size := by
          simpa using hsize
        rw [if_neg hnext, hlower, ih hmodel hnodup hsize' _ hquotient, hcarry,
          place_concat _ _ _ axis.domain.size_pos]
        simp only [Nat.add_zero, Nat.mul_lt_mul_right axis.domain.size_pos]

/-- From each numbered assignment of a scope the next one is that of the next number. -/
theorem Spans.advance_assignment {scope : List Var} {axes : List Axis}
    (h : model.Spans scope axes) (hscope : scope.Nodup) {number : Nat}
    (hnumber : number < volume axes) :
    model.advance scope.reverse (model.assignment axes number) =
      if number + 1 < volume axes then some (model.assignment axes (number + 1)) else none := by
  have hdigits : ∀ axis ∈ axes.reverse, model.axis? axis.var = some axis :=
    fun axis haxis => h.axis?_of_mem (List.mem_reverse.mp haxis)
  have hsize : ∀ axis ∈ axes.reverse, axis.var < model.lowerBounds.values.size :=
    fun axis haxis => h.lt_size_lowerBounds axis (List.mem_reverse.mp haxis)
  have hnodup : (axes.reverse.map Axis.var).Nodup := by
    rw [List.map_reverse, h.map_var]
    exact List.nodup_reverse.mpr hscope
  have hstep := advance_place hdigits hnodup hsize number
  rw [List.map_reverse, List.reverse_reverse, h.map_var] at hstep
  exact hstep hnumber

/-- The assignment with the number zero. -/
theorem Spans.assignment_zero {scope : List Var} {axes : List Axis} (h : model.Spans scope axes) :
    model.assignment axes 0 = model.lowerBounds := by
  induction h with
  | nil => rfl
  | @cons v axis scope axes haxis hrest ih =>
      obtain ⟨rfl, declared, hdeclared, hdomain⟩ := axis?_eq_some_iff.mp haxis
      have hlower := value?_lowerBounds hdeclared
      change (place axes 0 model.lowerBounds).2 = model.lowerBounds at ih
      rw [assignment, place_cons, place_fst, Nat.zero_div, Nat.zero_mod, ih, Domain.value_zero,
        ← hdomain]
      refine Assignment.ext_value? fun w => ?_
      rw [Assignment.value?_set]
      split
      · rename_i heq
        rw [← heq, hlower, if_pos (Array.getElem?_eq_some_iff.mp hlower).1]
      · rfl

end Model

/-! ## Walks -/

namespace Enumeration

variable {β : Type} {enumeration : Enumeration} {scope : List Var} {axes : List Axis}
  {visit : Assignment → β → Except Halt (ForInStep β)}

/-- The course of a search that goes from each assignment to the next one, after some visits. Its
trace lists the assignments that are visited. -/
inductive Walks {β : Type} (enumeration : Enumeration) (scope : List Var)
    (visit : Assignment → β → Except Halt (ForInStep β)) :
    Nat → Assignment → β → List Assignment → Except Halt (Nat × β) → Prop where
  | interrupted {visited a state} : enumeration.interrupted = true →
      Walks enumeration scope visit visited a state [] (.error (.error .interrupted))
  | limited {visited a state} : enumeration.interrupted = false → enumeration.limit ≤ visited →
      Walks enumeration scope visit visited a state [] (.error (.error (.resourceLimit
        s!"more than {enumeration.limit} assignments to enumerate")))
  | halted {visited a state halt} : enumeration.interrupted = false →
      visited < enumeration.limit → visit a state = .error halt →
      Walks enumeration scope visit visited a state [a] (.error halt)
  | stopped {visited a state result} : enumeration.interrupted = false →
      visited < enumeration.limit → visit a state = .ok (.done result) →
      Walks enumeration scope visit visited a state [a] (.ok (visited + 1, result))
  | exhausted {visited a state result} : enumeration.interrupted = false →
      visited < enumeration.limit → visit a state = .ok (.yield result) →
      enumeration.model.advance scope.reverse a = none →
      Walks enumeration scope visit visited a state [a] (.ok (visited + 1, result))
  | advanced {visited a state next b trace outcome} : enumeration.interrupted = false →
      visited < enumeration.limit → visit a state = .ok (.yield next) →
      enumeration.model.advance scope.reverse a = some b →
      Walks enumeration scope visit (visited + 1) b next trace outcome →
      Walks enumeration scope visit visited a state (a :: trace) outcome

/-- There is one course for a search to take. -/
theorem Walks.unique {visited : Nat} {a : Assignment} {state : β} {first second : List Assignment}
    {result other : Except Halt (Nat × β)}
    (h : enumeration.Walks scope visit visited a state first result)
    (h' : enumeration.Walks scope visit visited a state second other) :
    first = second ∧ result = other := by
  -- The conditions of no two rules can be met together.
  induction h generalizing second with
  | interrupted => cases h' <;> grind
  | limited => cases h' <;> grind
  | halted => cases h' <;> grind
  | stopped => cases h' <;> grind
  | exhausted => cases h' <;> grind
  | advanced _ _ hvisit hnext _ ih =>
      cases h' with
      | advanced _ _ hvisit' hnext' hrest =>
          obtain rfl := Option.some.inj (hnext.symm.trans hnext')
          cases hvisit.symm.trans hvisit'
          obtain ⟨rfl, rfl⟩ := ih hrest
          exact ⟨rfl, rfl⟩
      | _ => grind

/-- The visits of the numbers from some number on are a walk from its assignment on. If all visits
go on, the walk takes them all. -/
theorem exists_walks_sweep (h : enumeration.model.Spans scope axes) (hscope : scope.Nodup)
    (hinterrupted : enumeration.interrupted = false)
    (visit : Assignment → β → Except Halt (ForInStep β)) {remaining number : Nat} (state : β)
    (hnumber : number < volume axes)
    (hremaining : number + remaining = min (volume axes) enumeration.limit) :
    ∃ count ≤ remaining,
      enumeration.Walks scope visit number (enumeration.model.assignment axes number) state
        ((List.range' number count).map (enumeration.model.assignment axes))
        (sweep (fun number => visit (enumeration.model.assignment axes number)) remaining number
          state >>= enumeration.close (volume axes)) ∧
      ((∀ a state, ∃ next, visit a state = .ok (.yield next)) → count = remaining) := by
  induction remaining generalizing number state with
  | zero =>
      -- No visit is left, although there are assignments that have not been visited.
      have hlimit : enumeration.limit = number := by omega
      refine ⟨0, le_refl 0, ?_, fun _ => rfl⟩
      change enumeration.Walks scope visit number _ state []
        (enumeration.close (volume axes) ⟨false, number, state⟩)
      rw [close_of_lt (by omega)]
      exact .limited hinterrupted hlimit.le
  | succ remaining ih =>
      have hlimit : number < enumeration.limit := by omega
      have hadvance := h.advance_assignment hscope hnumber
      rw [sweep]
      rcases hvisit : visit (enumeration.model.assignment axes number) state with
        halt | result | next
      · refine ⟨1, by omega, .halted hinterrupted hlimit hvisit, fun hgo => ?_⟩
        obtain ⟨next, hnext⟩ := hgo (enumeration.model.assignment axes number) state
        cases hvisit.symm.trans hnext
      · refine ⟨1, by omega, .stopped hinterrupted hlimit hvisit, fun hgo => ?_⟩
        obtain ⟨next, hnext⟩ := hgo (enumeration.model.assignment axes number) state
        cases hvisit.symm.trans hnext
      · by_cases hlast : number + 1 < volume axes
        · rw [if_pos hlast] at hadvance
          obtain ⟨count, hcount, hwalks, hall⟩ := ih next hlast (by omega)
          refine ⟨count + 1, by omega, ?_, fun hgo => by rw [hall hgo]⟩
          rw [List.range'_succ, List.map_cons]
          exact .advanced hinterrupted hlimit hvisit hadvance hwalks
        · rw [if_neg hlast] at hadvance
          obtain rfl : remaining = 0 := by omega
          refine ⟨1, le_refl 1, ?_, fun _ => rfl⟩
          change enumeration.Walks scope visit number _ state _
            (enumeration.close (volume axes) ⟨false, number + 1, next⟩)
          rw [close_of_le (by omega)]
          exact .exhausted hinterrupted hlimit hvisit hadvance

/-- Every enumeration is a walk from the lower bounds on. -/
theorem exists_walks_run (h : enumeration.model.Spans scope axes) (hscope : scope.Nodup)
    (hinterrupted : enumeration.interrupted = false) (start : β)
    (visit : Assignment → β → Except Halt (ForInStep β)) :
    ∃ trace, trace <+: enumeration.model.assignments axes ∧
      enumeration.Walks scope visit 0 enumeration.model.lowerBounds start trace
        (enumeration.run scope start visit) ∧
      ((∀ a state, ∃ next, visit a state = .ok (.yield next)) →
        trace = (enumeration.model.assignments axes).take enumeration.limit) := by
  obtain ⟨count, hcount, hwalks, hall⟩ :=
    exists_walks_sweep h hscope hinterrupted visit start (volume_pos axes) (Nat.zero_add _)
  rw [← run_of_axes (axes_eq_ok_iff.mpr h) hinterrupted, h.assignment_zero,
    ← List.range_eq_range'] at hwalks
  have htake : (List.range count).map (enumeration.model.assignment axes) =
      (enumeration.model.assignments axes).take count := by
    rw [Model.assignments, ← List.map_take, List.take_range, Nat.min_eq_left (by omega)]
  rw [htake] at hwalks
  refine ⟨_, List.take_prefix _ _, hwalks, fun hgo => ?_⟩
  rw [hall hgo, List.take_eq_take_iff, Model.length_assignments]
  omega

/-- Visits that all go on take place for each number. -/
theorem sweep_of_yields (update : Nat → β → β) (remaining number : Nat) (state : β) :
    sweep (fun number state => .ok (.yield (update number state))) remaining number state =
      .ok ⟨false, number + remaining,
        (List.range' number remaining).foldl (fun state number => update number state) state⟩ := by
  induction remaining generalizing number state with
  | zero => rfl
  | succ remaining ih =>
      rw [sweep, List.range'_succ, List.foldl_cons]
      refine (ih (number + 1) _).trans ?_
      rw [Nat.add_assoc, Nat.add_comm 1]

theorem run_of_yields (h : enumeration.model.Spans scope axes)
    (hinterrupted : enumeration.interrupted = false) (start : β) (update : Assignment → β → β) :
    enumeration.run scope start (fun a state => .ok (.yield (update a state))) =
      if volume axes ≤ enumeration.limit then
        .ok (volume axes, (enumeration.model.assignments axes).foldl
          (fun state a => update a state) start)
      else
        .error (.error (.resourceLimit
          s!"more than {enumeration.limit} assignments to enumerate")) := by
  rw [run_of_axes (axes_eq_ok_iff.mpr h) hinterrupted,
    sweep_of_yields fun number => update (enumeration.model.assignment axes number)]
  change enumeration.close (volume axes) _ = _
  split
  · rename_i hle
    rw [close_of_le hle, Nat.min_eq_left hle, Model.assignments, List.foldl_map, Nat.zero_add,
      List.range_eq_range']
  · rename_i hlt
    exact close_of_lt (Nat.lt_of_not_le hlt)

/-- An enumeration visits the product of the domains of its scope in the lexicographic order of the
scope. It is the walk from the lower bounds on, which comes to an end whatever the visits do. If
they all go on, it takes in as much of the product as the limit permits, and the result is the
number of all assignments, or that there are more than the limit permits. All values are in their
domains, where a value below the upper bound has a successor. -/
theorem run_visits_product (enumeration : Enumeration) {scope : List Var} (hscope : scope.Nodup)
    (hdeclares : enumeration.model.Declares scope)
    (hinterrupted : enumeration.interrupted = false) :
    ∃ product, enumeration.model.IsProduct scope product ∧
      (∀ a ∈ product, ∀ v axis value, enumeration.model.axis? v = some axis →
        a.value? v = some value →
          value ∈ axis.domain ∧ (value < axis.domain.upper →
            (value + 1).toInt = value.toInt + 1 ∧ value + 1 ∈ axis.domain)) ∧
      (∀ {β : Type} (start : β) (visit : Assignment → β → Except Halt (ForInStep β)),
        ∃ trace, trace <+: product ∧ enumeration.Walks scope visit 0
          enumeration.model.lowerBounds start trace (enumeration.run scope start visit)) ∧
      ∀ {β : Type} (start : β) (update : Assignment → β → β),
        let visit : Assignment → β → Except Halt (ForInStep β) :=
          fun a state => .ok (.yield (update a state))
        (∀ trace result,
          enumeration.Walks scope visit 0 enumeration.model.lowerBounds start trace result ↔
            trace = product.take enumeration.limit ∧
              result = enumeration.run scope start visit) ∧
        enumeration.run scope start visit =
          if product.length ≤ enumeration.limit then
            .ok (product.length, product.foldl (fun state a => update a state) start)
          else
            .error (.error (.resourceLimit
              s!"more than {enumeration.limit} assignments to enumerate")) := by
  obtain ⟨axes, haxes⟩ := Model.exists_spans hdeclares
  have hproduct := haxes.isProduct hscope
  refine ⟨enumeration.model.assignments axes, hproduct, ?_, fun start visit => ?_,
    fun start update => ⟨?_, ?_⟩⟩
  · intro a ha v axis value haxis hvalue
    obtain ⟨-, declared, hdeclared, hdomain⟩ := Model.axis?_eq_some_iff.mp haxis
    obtain ⟨hadmits, -⟩ := (hproduct.mem_iff a).mp ha
    obtain ⟨other, hmem, hother⟩ := hadmits.mem_domain v declared hdeclared
    obtain rfl : value = other := Option.some.inj (hvalue.symm.trans hother)
    rw [hdomain] at hmem
    exact ⟨hmem, Domain.toInt_add_one hmem⟩
  · obtain ⟨trace, hprefix, hwalks, -⟩ :=
      exists_walks_run haxes hscope hinterrupted start visit
    exact ⟨trace, hprefix, hwalks⟩
  · intro trace result
    obtain ⟨visited, -, hwalks, hall⟩ := exists_walks_run haxes hscope hinterrupted start _
    obtain rfl := hall fun a state => ⟨_, rfl⟩
    constructor
    · exact fun h => h.unique hwalks
    · rintro ⟨rfl, rfl⟩
      exact hwalks
  · rw [Model.length_assignments]
    exact run_of_yields haxes hinterrupted start update

/-- The first variable of the scope is not the first one of the model, and its domain ends with the
largest value there is. The limit is exactly the number of assignments. -/
theorem run_visits_product_at_largest_value :
    let model : Model := ⟨#[⟨"x", 0, 1, by decide⟩, ⟨"y", 2147483646, 2147483647, by decide⟩,
      ⟨"z", 7, 9, by decide⟩]⟩
    let enumeration : Enumeration := { model, limit := 4 }
    let visit : Assignment → List Assignment → Except Halt (ForInStep (List Assignment)) :=
      fun a seen => .ok (.yield (seen ++ [a]))
    let all : List Assignment := [⟨#[0, 2147483646, 7]⟩, ⟨#[1, 2147483646, 7]⟩,
      ⟨#[0, 2147483647, 7]⟩, ⟨#[1, 2147483647, 7]⟩]
    ([1, 0].Nodup ∧ model.Declares [1, 0] ∧ enumeration.interrupted = false) ∧
      model.IsProduct [1, 0] all ∧
      enumeration.Walks [1, 0] visit 0 model.lowerBounds [] all (.ok (4, all)) := by
  intro model enumeration visit all
  have hscope : [1, 0].Nodup := by decide
  have hdeclares : model.Declares [1, 0] := by decide
  obtain ⟨product, hproduct, -, -, hruns⟩ :=
    run_visits_product enumeration hscope hdeclares rfl
  obtain ⟨hwalks, hrun⟩ := hruns [] fun a seen => seen ++ [a]
  have hresult : enumeration.run [1, 0] [] visit = .ok (4, all) := by decide +kernel
  have hlength : product.length = 4 := hproduct.length_eq.trans (by decide)
  have hcollected : product.foldl (fun seen a => seen ++ [a]) [] = product := by
    rw [List.foldl_append_eq_append, List.nil_append, ← List.flatMap_def, List.flatMap_singleton']
  have hall : product = all := by
    rw [if_pos hlength.le, hlength, hcollected] at hrun
    exact congrArg Prod.snd (Except.ok.inj (hrun.symm.trans hresult))
  subst hall
  exact ⟨⟨hscope, hdeclares, rfl⟩, hproduct, (hwalks _ _).mpr ⟨rfl, hresult.symm⟩⟩

end Enumeration

end Infeasibility.FiniteDomain
