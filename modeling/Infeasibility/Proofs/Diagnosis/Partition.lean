import Infeasibility.Proofs.Diagnosis.Protocol

/-! # Partitions of a source

The positions of a diagnosis and those of its complement share out the positions of the source. All
of this rests on the check that a diagnosis is made with, which compares neighbours and looks at the
last position only: positions can be found by bisection, and merged with others, because they are
strictly increasing. -/

namespace Infeasibility

/-! ## Merging -/

namespace Ascending

/-- In a merge, a number takes the place that it has when it is inserted, unless it was there
before. -/
theorem merge_singleton {n : Nat} {xs : List Nat} (h : n ∉ xs) :
    xs.merge [n] (· ≤ ·) = insert n xs := by
  induction xs with
  | nil => rw [List.nil_merge, insert]
  | cons a xs ih =>
      obtain ⟨hne, hnot⟩ := not_or.mp (List.mem_cons.not.mp h)
      rw [List.cons_merge_cons, insert]
      by_cases hlt : n < a
      · rw [if_pos hlt, if_neg (by simpa using hlt), List.merge_right]
      · rw [if_neg hlt, if_neg hne, if_pos (by simpa using hlt), ih hnot]

/-! ## Bisection -/

section Bisection

variable {n : Nat} {xs : Array Nat}

theorem index_lt_of_lt (h : xs.toList.Pairwise (· < ·)) {i j a b : Nat} (hi : xs[i]? = some a)
    (hj : xs[j]? = some b) (hlt : a < b) : i < j := by
  obtain ⟨hi', rfl⟩ := Array.getElem?_eq_some_iff.mp hi
  obtain ⟨hj', rfl⟩ := Array.getElem?_eq_some_iff.mp hj
  by_contra hle
  rcases Nat.lt_or_eq_of_le (Nat.le_of_not_lt hle) with hless | rfl
  · exact Nat.lt_asymm hlt (List.pairwise_iff_getElem.mp h j i hj' hi' hless)
  · exact Nat.lt_irrefl _ hlt

/-- Bisection finds a number that stands between the two ends of the search, and no other one. -/
theorem binSearchAux_iff (h : xs.toList.Pairwise (· < ·)) (lower : Fin (xs.size + 1))
    (upper : Fin xs.size) (hle : lower.val ≤ upper.val) :
    Array.binSearchAux (fun a b => decide (a < b)) Option.isSome xs n lower upper hle = true ↔
      ∃ i, lower.val ≤ i ∧ i ≤ upper.val ∧ xs[i]? = some n := by
  fun_induction Array.binSearchAux with
  | case1 lower upper hle middle a hless hnext _ ih =>
      -- The number stands in the upper half, if anywhere.
      have hmiddle : xs[middle]? = some a := Array.getElem?_eq_getElem _
      rw [ih]
      constructor
      · rintro ⟨i, hi, hi', hn⟩
        have hafter : middle + 1 ≤ i := hi
        exact ⟨i, by omega, hi', hn⟩
      · rintro ⟨i, hi, hi', hn⟩
        exact ⟨i, index_lt_of_lt h hmiddle hn (of_decide_eq_true hless), hi', hn⟩
  | case2 lower upper hle middle a hless hlast _ =>
      have hmiddle : xs[middle]? = some a := Array.getElem?_eq_getElem _
      refine iff_of_false (by simp) ?_
      rintro ⟨i, hi, hi', hn⟩
      have hafter : middle < i := index_lt_of_lt h hmiddle hn (of_decide_eq_true hless)
      omega
  | case3 lower upper hle middle a _ hgreater hfirst _ =>
      have hmiddle : xs[middle]? = some a := Array.getElem?_eq_getElem _
      refine iff_of_false (by simp) ?_
      rintro ⟨i, hi, hi', hn⟩
      have hbefore : i < middle := index_lt_of_lt h hn hmiddle (of_decide_eq_true hgreater)
      omega
  | case4 lower upper hle middle a _ hgreater hprevious _ ih =>
      -- The number stands in the lower half, if anywhere.
      have hmiddle : xs[middle]? = some a := Array.getElem?_eq_getElem _
      rw [ih]
      constructor
      · rintro ⟨i, hi, hi', hn⟩
        have hbefore : i ≤ middle - 1 := hi'
        exact ⟨i, hi, by omega, hn⟩
      · rintro ⟨i, hi, hi', hn⟩
        have hbefore : i < middle := index_lt_of_lt h hn hmiddle (of_decide_eq_true hgreater)
        exact ⟨i, hi, Nat.le_sub_one_of_lt hbefore, hn⟩
  | case5 lower upper hle middle a hless hgreater _ =>
      have hmiddle : xs[middle]? = some a := Array.getElem?_eq_getElem _
      have heq : a = n := by
        rw [decide_eq_true_eq] at hless hgreater
        omega
      exact iff_of_true rfl ⟨middle, by omega, by omega, by rw [hmiddle, heq]⟩

theorem binSearchContains_iff (h : xs.toList.Pairwise (· < ·)) :
    xs.binSearchContains n (· < ·) = true ↔ n ∈ xs := by
  rw [Array.binSearchContains, Array.mem_iff_getElem?]
  split
  · rename_i hsize
    have hlast : xs.size - 1 < xs.size := by omega
    simp only [hlast, if_true, dite_true, Nat.zero_le, binSearchAux_iff h]
    constructor
    · rintro ⟨i, -, -, hi⟩
      exact ⟨i, hi⟩
    · rintro ⟨i, hi⟩
      have hlt := (Array.getElem?_eq_some_iff.mp hi).1
      exact ⟨i, trivial, by omega, hi⟩
  · rename_i hsize
    refine iff_of_false (by simp) ?_
    rintro ⟨i, hi⟩
    exact hsize (Nat.zero_lt_of_lt (Array.getElem?_eq_some_iff.mp hi).1)

end Bisection

end Ascending

/-! ## Diagnoses -/

namespace Diagnosis

variable {α : Type} {source : List α} {diagnosis : Diagnosis source}

/-- Positions are valid exactly if there is a diagnosis of them. -/
theorem isSome_ofPositions?_iff {positions : List Nat} :
    (ofPositions? source positions).isSome ↔
      positions.Pairwise (· < ·) ∧ ∀ position ∈ positions, position < source.length := by
  rw [← isValid_iff, ofPositions?]
  split <;> simp [*]

theorem binSearchContains_positions (diagnosis : Diagnosis source) (position : Nat) :
    diagnosis.positions.toArray.binSearchContains position (· < ·) =
      diagnosis.contains position := by
  rw [Bool.eq_iff_iff, contains_eq_true_iff, Ascending.binSearchContains_iff diagnosis.increasing,
    List.mem_toArray]

/-- Each position stands for an element. -/
theorem map_some_toList (diagnosis : Diagnosis source) :
    diagnosis.toList.map some = diagnosis.positions.map (source[·]?) := by
  rw [toList, List.map_filterMap_some_eq_filter_map_isSome, List.filter_eq_self]
  intro element hmem
  obtain ⟨position, hposition, rfl⟩ := List.mem_map.mp hmem
  simpa using diagnosis.lt_length position hposition

theorem toList_sublist (diagnosis : Diagnosis source) : diagnosis.toList.Sublist source := by
  have hpositions : diagnosis.positions.Sublist (List.range source.length) := by
    refine sublist_of_forall_mem diagnosis.increasing List.pairwise_lt_range fun position hmem => ?_
    exact List.mem_range.mpr (diagnosis.lt_length position hmem)
  have helements := hpositions.filterMap (source[·]?)
  rwa [Problem.filterMap_getElem?_range] at helements

theorem merge_complement {restored : Nat} (h : restored ∈ diagnosis.positions) :
    diagnosis.complement.merge [restored] (· ≤ ·) =
      Ascending.insert restored diagnosis.complement :=
  Ascending.merge_singleton fun hmem => (mem_complement.mp hmem).2 h

/-- What becomes of a source that the given positions are taken from: each of its positions is in
one of two strictly increasing lists, where it can be found by bisection, and one that is put back
into the rest takes its old place. -/
structure Partitions (diagnosis : Diagnosis source) (positions : List Nat) : Prop where
  positions_eq : diagnosis.positions = positions
  contains_iff : ∀ position, diagnosis.contains position = true ↔ position ∈ positions
  contains_eq : ∀ position,
    diagnosis.contains position = positions.toArray.binSearchContains position (· < ·)
  increasing : diagnosis.complement.Pairwise (· < ·)
  mem_complement_iff : ∀ position, position ∈ diagnosis.complement ↔
    position < source.length ∧ position ∉ positions
  perm : (positions ++ diagnosis.complement).Perm (List.range source.length)
  map_some : diagnosis.toList.map some = positions.map (source[·]?)
  sublist : diagnosis.toList.Sublist source
  merge_eq : ∀ restored ∈ positions, diagnosis.complement.merge [restored] (· ≤ ·) =
    Ascending.insert restored diagnosis.complement
  merge_increasing : ∀ restored ∈ positions,
    (diagnosis.complement.merge [restored] (· ≤ ·)).Pairwise (· < ·)
  mem_merge_iff : ∀ restored ∈ positions, ∀ position,
    position ∈ diagnosis.complement.merge [restored] (· ≤ ·) ↔
      position ∈ diagnosis.complement ∨ position = restored

/-- There is a diagnosis of some positions exactly if they are strictly increasing and all below the
length of the source. It partitions the source, and the lists that a check of a correction asks
about are merges of the complement with single positions. -/
theorem ofPositions?_partitions (source : List α) (positions : List Nat) :
    ((ofPositions? source positions).isSome ↔
      positions.Pairwise (· < ·) ∧ ∀ position ∈ positions, position < source.length) ∧
    ∀ diagnosis, ofPositions? source positions = some diagnosis →
      diagnosis.Partitions positions := by
  refine ⟨isSome_ofPositions?_iff, fun diagnosis h => ?_⟩
  obtain rfl := Problem.positions_of_ofPositions? h
  constructor
  · rfl
  · exact fun _ => contains_eq_true_iff
  · exact fun position => (diagnosis.binSearchContains_positions position).symm
  · exact diagnosis.complement_pairwise
  · exact fun _ => mem_complement
  · exact diagnosis.positions_append_complement_perm
  · exact diagnosis.map_some_toList
  · exact diagnosis.toList_sublist
  · exact fun _ => merge_complement
  · intro restored hmem
    rw [merge_complement hmem]
    exact Ascending.insert_pairwise diagnosis.complement_pairwise
  · intro restored hmem position
    rw [List.mem_merge, List.mem_singleton]

/-- Two positions, of which one is the last of the source, and the position between them when it is
put back. In another order the positions are refused. -/
theorem ofPositions?_partitions_of_last :
    let source := ["a", "b", "c", "d"]
    let diagnosis : Diagnosis source := ⟨[1, 3], by decide, by decide⟩
    (ofPositions? source [1, 3] = some diagnosis ∧ diagnosis.Partitions [1, 3]) ∧
      diagnosis.complement = [0, 2] ∧
      diagnosis.complement.merge [1] (· ≤ ·) = [0, 1, 2] ∧
      ofPositions? source [3, 1] = none := by
  intro source diagnosis
  have hdiagnosis : ofPositions? source [1, 3] = some diagnosis := by decide +kernel
  obtain ⟨-, hpartitions⟩ := ofPositions?_partitions source [1, 3]
  have hpartition := hpartitions diagnosis hdiagnosis
  obtain ⟨hvalid, -⟩ := ofPositions?_partitions source [3, 1]
  have hdisorder : ¬ [3, 1].Pairwise (· < ·) := by decide
  refine ⟨⟨hdiagnosis, hpartition⟩, by decide, ?_, ?_⟩
  · rw [hpartition.merge_eq 1 (by decide)]
    decide
  · rw [← Option.not_isSome_iff_eq_none, hvalid]
    exact fun h => hdisorder h.1

end Diagnosis

end Infeasibility
