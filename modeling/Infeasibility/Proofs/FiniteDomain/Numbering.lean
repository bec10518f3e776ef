import Infeasibility.FiniteDomain.Enumeration
import Mathlib.Data.List.Forall2
import Mathlib.Data.List.Nodup

/-! # Assignments by number

The numbers below the volume of some axes stand for all combinations of values of their variables.
The axes that come last are the least significant digits of a number: they can be split off by a
division with remainder. -/

namespace Infeasibility.FiniteDomain

/-! ## Values of a domain -/

namespace Domain

instance : Membership Int32 Domain :=
  ⟨fun domain value => domain.lower ≤ value ∧ value ≤ domain.upper⟩

instance (value : Int32) (domain : Domain) : Decidable (value ∈ domain) :=
  inferInstanceAs (Decidable (domain.lower ≤ value ∧ value ≤ domain.upper))

theorem mem_iff {domain : Domain} {value : Int32} :
    value ∈ domain ↔
      domain.lower.toInt ≤ value.toInt ∧ value.toInt ≤ domain.upper.toInt := by
  rw [← Int32.le_iff_toInt_le, ← Int32.le_iff_toInt_le]
  rfl

theorem lower_mem (domain : Domain) : domain.lower ∈ domain :=
  ⟨Int32.le_refl _, domain.lower_le_upper⟩

theorem toInt_value {domain : Domain} {index : Nat} (h : index < domain.size) :
    (domain.value index).toInt = domain.lower.toInt + index := by
  have hle := Int32.le_iff_toInt_le.mp domain.lower_le_upper
  have hlower := domain.lower.le_toInt
  have hupper := domain.upper.toInt_lt
  rw [size] at h
  rw [value, Int32.toInt_ofInt_of_le] <;> omega

theorem value_mem {domain : Domain} {index : Nat} (h : index < domain.size) :
    domain.value index ∈ domain := by
  have hle := Int32.le_iff_toInt_le.mp domain.lower_le_upper
  rw [mem_iff, toInt_value h]
  rw [size] at h
  omega

theorem exists_value_eq {domain : Domain} {value : Int32} (h : value ∈ domain) :
    ∃ index < domain.size, domain.value index = value := by
  obtain ⟨hlower, hupper⟩ := mem_iff.mp h
  have hindex : (value.toInt - domain.lower.toInt).toNat < domain.size := by
    rw [size]
    omega
  refine ⟨_, hindex, Int32.toInt_inj.mp ?_⟩
  rw [toInt_value hindex]
  omega

end Domain

/-! ## Single variables -/

namespace Assignment

theorem value?_set {a : Assignment} {v w : Var} {value : Int32} :
    (a.set v value).value? w =
      if v = w then if v < a.values.size then some value else none else a.value? w := by
  simp [set, value?, Array.getElem?_setIfInBounds]

@[simp] theorem size_set (a : Assignment) (v : Var) (value : Int32) :
    (a.set v value).values.size = a.values.size := by
  simp [set]

end Assignment

/-! ## All variables of some axes -/

section Place

variable {axes : List Axis} {number : Nat} {a : Assignment}

theorem place_cons (axis : Axis) (axes : List Axis) (number : Nat) (a : Assignment) :
    place (axis :: axes) number a =
      ((place axes number a).1 / axis.domain.size, (place axes number a).2.set axis.var
        (axis.domain.value ((place axes number a).1 % axis.domain.size))) :=
  rfl

@[simp] theorem size_place (axes : List Axis) (number : Nat) (a : Assignment) :
    (place axes number a).2.values.size = a.values.size := by
  induction axes with
  | nil => rfl
  | cons axis axes ih => rw [place_cons, Assignment.size_set, ih]

/-- The variables of no axis keep their values. -/
theorem value?_place_of_notMem {v : Var} (h : v ∉ axes.map Axis.var) :
    (place axes number a).2.value? v = a.value? v := by
  induction axes with
  | nil => rfl
  | cons axis axes ih =>
      obtain ⟨hne, hnot⟩ := not_or.mp (List.mem_cons.not.mp h)
      rw [place_cons, Assignment.value?_set, if_neg (Ne.symm hne), ih hnot]

/-- The variable of an axis gets a value of its domain, if it has one at all. -/
theorem value?_place_of_mem (number : Nat) {v : Var} (h : v ∈ axes.map Axis.var)
    (hv : v < a.values.size) :
    ∃ axis ∈ axes, axis.var = v ∧ ∃ value ∈ axis.domain,
      (place axes number a).2.value? v = some value := by
  induction axes with
  | nil => exact absurd h (List.not_mem_nil)
  | cons axis axes ih =>
      rw [place_cons, Assignment.value?_set]
      by_cases heq : axis.var = v
      · have hdigit : (place axes number a).1 % axis.domain.size < axis.domain.size :=
          Nat.mod_lt _ axis.domain.size_pos
        refine ⟨axis, List.mem_cons_self, heq, _, Domain.value_mem hdigit, ?_⟩
        rw [if_pos heq, size_place, if_pos (heq ▸ hv)]
      · have hmem : v ∈ axes.map Axis.var :=
          (List.mem_cons.mp h).resolve_left fun h => heq h.symm
        obtain ⟨other, hother, hrest⟩ := ih hmem
        rw [if_neg heq]
        exact ⟨other, List.mem_cons_of_mem axis hother, hrest⟩

/-- What is left of a number once the digits are split off. -/
theorem place_fst (axes : List Axis) (number : Nat) (a : Assignment) :
    (place axes number a).1 = number / volume axes := by
  induction axes with
  | nil => exact (Nat.div_one number).symm
  | cons axis axes ih =>
      rw [place_cons, ih, Nat.div_div_eq_div_mul, volume, Nat.mul_comm]

/-- Where the value of a variable comes from does not depend on other variables. -/
theorem value?_place_congr {b : Assignment} {v : Var} (h : a.value? v = b.value? v) :
    (place axes number a).2.value? v = (place axes number b).2.value? v := by
  have hsize : v < a.values.size ↔ v < b.values.size := by
    have hnone : a.values[v]? = none ↔ b.values[v]? = none := iff_of_eq (congrArg (· = none) h)
    rw [Array.getElem?_eq_none_iff, Array.getElem?_eq_none_iff] at hnone
    exact Nat.not_le.symm.trans ((not_congr hnone).trans Nat.not_le)
  induction axes with
  | nil => exact h
  | cons axis axes ih =>
      rw [place_cons, place_cons, Assignment.value?_set, Assignment.value?_set, place_fst,
        place_fst, size_place, size_place, ih]
      by_cases heq : axis.var = v
      · subst heq
        simp [hsize]
      · rw [if_neg heq, if_neg heq]

/-! ## Division with remainder -/

theorem div_mod_of_lt {number total width : Nat} (h : number < total * width) :
    number / width < total ∧ number % width < width ∧
      number = number / width * width + number % width := by
  have hwidth : 0 < width := Nat.pos_of_mul_pos_left (Nat.zero_lt_of_lt h)
  refine ⟨(Nat.div_lt_iff_lt_mul hwidth).mpr h, Nat.mod_lt _ hwidth, ?_⟩
  rw [Nat.mul_comm]
  exact (Nat.div_add_mod number width).symm

theorem mul_add_div_mod (quotient : Nat) {digit width : Nat} (h : digit < width) :
    (quotient * width + digit) / width = quotient ∧ (quotient * width + digit) % width = digit := by
  have hwidth : 0 < width := Nat.zero_lt_of_lt h
  constructor
  · rw [Nat.mul_comm, Nat.mul_add_div hwidth, Nat.div_eq_of_lt h, Nat.add_zero]
  · rw [Nat.mul_comm, Nat.mul_add_mod, Nat.mod_eq_of_lt h]

theorem mul_add_lt {block digit bound width : Nat} (hblock : block < bound)
    (hdigit : digit < width) : block * width + digit < bound * width := by
  calc block * width + digit
    _ < block * width + width := Nat.add_lt_add_left hdigit _
    _ = (block + 1) * width := (Nat.succ_mul _ _).symm
    _ ≤ bound * width := Nat.mul_le_mul_right _ hblock

/-- Of two numbers with the same quotient the lesser one has the lesser remainder. -/
theorem mod_lt_mod_of_div_eq {m n width : Nat} (hlt : m < n) (hsame : m / width = n / width) :
    m % width < n % width := by
  have hm := Nat.div_add_mod m width
  have hn := Nat.div_add_mod n width
  rw [hsame] at hm
  omega

/-- What exceeds the volume of the axes has no influence on their variables. -/
theorem place_mul_add (axes : List Axis) (quotient number : Nat) (a : Assignment) :
    (place axes (quotient * volume axes + number) a).2 = (place axes number a).2 := by
  induction axes generalizing quotient with
  | nil => rfl
  | cons axis axes ih =>
      have hsplit : quotient * volume (axis :: axes) + number =
          quotient * axis.domain.size * volume axes + number := by
        rw [volume, Nat.mul_assoc]
      have hdigit : (quotient * axis.domain.size * volume axes + number) / volume axes %
          axis.domain.size = number / volume axes % axis.domain.size := by
        rw [Nat.mul_comm _ (volume axes), Nat.mul_add_div (volume_pos axes),
          Nat.mul_comm quotient, Nat.mul_add_mod]
      rw [place_cons, place_cons, hsplit, ih, place_fst, place_fst, hdigit]

theorem place_append (first second : List Axis) (number : Nat) (a : Assignment) :
    place (first ++ second) number a =
      place first (place second number a).1 (place second number a).2 := by
  induction first with
  | nil => rfl
  | cons axis first ih => rw [List.cons_append, place_cons, place_cons, ih]

/-- The last axes stand for the last digits, and the first ones for what is before them. -/
theorem place_append_add (first second : List Axis) (quotient : Nat) {digit : Nat}
    (h : digit < volume second) (a : Assignment) :
    place (first ++ second) (quotient * volume second + digit) a =
      place first quotient (place second digit a).2 := by
  rw [place_append, place_fst, (mul_add_div_mod quotient h).1, place_mul_add]

theorem volume_append (first second : List Axis) :
    volume (first ++ second) = volume first * volume second := by
  induction first with
  | nil => rw [List.nil_append, volume, Nat.one_mul]
  | cons axis first ih => rw [List.cons_append, volume, volume, ih, Nat.mul_assoc]

/-- Every combination of values has its number. -/
theorem exists_place_eq (a target : Assignment) (hnodup : (axes.map Axis.var).Nodup)
    (hsize : a.values.size = target.values.size)
    (hvalues : ∀ axis ∈ axes, ∃ value ∈ axis.domain, target.value? axis.var = some value) :
    ∃ number < volume axes, ∀ v ∈ axes.map Axis.var,
      (place axes number a).2.value? v = target.value? v := by
  induction axes with
  | nil => exact ⟨0, Nat.one_pos, by simp⟩
  | cons axis axes ih =>
      obtain ⟨hnot, hnodup⟩ := List.nodup_cons.mp hnodup
      obtain ⟨⟨value, hvalue, htarget⟩, hvalues⟩ := List.forall_mem_cons.mp hvalues
      obtain ⟨number, hnumber, hagree⟩ := ih hnodup hvalues
      obtain ⟨digit, hdigit, rfl⟩ := Domain.exists_value_eq hvalue
      have hvar : axis.var < a.values.size := by
        rw [hsize]
        exact (Array.getElem?_eq_some_iff.mp htarget).1
      -- The digit of the first axis is the most significant one.
      have hfst : (digit * volume axes + number) / volume axes = digit :=
        (mul_add_div_mod digit hnumber).1
      refine ⟨digit * volume axes + number, mul_add_lt hdigit hnumber, fun v hv => ?_⟩
      rw [place_cons, Assignment.value?_set, place_fst, hfst, Nat.mod_eq_of_lt hdigit,
        place_mul_add, size_place, if_pos hvar]
      by_cases heq : axis.var = v
      · rw [if_pos heq, ← heq, htarget]
      · rw [if_neg heq]
        exact hagree v ((List.mem_cons.mp hv).resolve_left fun h => heq h.symm)

end Place

end Infeasibility.FiniteDomain
