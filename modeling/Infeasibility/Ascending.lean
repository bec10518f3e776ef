/-!
# Ascending lists

Finite sets of natural numbers, written as strictly increasing lists: `ofList` and `insert` build
them, `isAscending` recognizes them, and `contains` looks a number up.
-/

namespace Infeasibility.Ascending

/-- Each number is less than the next. -/
def isAscending : List Nat → Bool
  | [] => true
  | [_] => true
  | a :: b :: rest => a < b && isAscending (b :: rest)

/-- Looks for a number in an ascending list, no further than the first greater one. -/
def contains (n : Nat) : List Nat → Bool
  | [] => false
  | a :: rest => if n < a then false else a == n || contains n rest

/-- Adds a number to an ascending list, unless it is there already. -/
def insert (n : Nat) : List Nat → List Nat
  | [] => [n]
  | a :: rest => if n < a then n :: a :: rest else if n = a then a :: rest else a :: insert n rest

/-- The numbers of a list, in increasing order and without repetition. -/
def ofList (xs : List Nat) : List Nat :=
  xs.foldr insert []

/-! ### Recognition -/

theorem isAscending_iff (xs : List Nat) : isAscending xs ↔ xs.Pairwise (· < ·) := by
  induction xs with
  | nil => simp [isAscending]
  | cons a xs ih =>
    cases xs with
    | nil => simp [isAscending]
    | cons b xs =>
      rw [isAscending, Bool.and_eq_true, ih, decide_eq_true_eq, List.pairwise_cons (a := a)]
      refine and_congr_left fun h => ⟨fun hab c hc => ?_, fun h => h b (by simp)⟩
      rcases List.mem_cons.mp hc with rfl | hc
      · exact hab
      · exact Nat.lt_trans hab ((List.pairwise_cons.mp h).1 c hc)

/-! ### Membership -/

theorem contains_iff {n : Nat} {xs : List Nat} (h : xs.Pairwise (· < ·)) :
    contains n xs ↔ n ∈ xs := by
  induction xs with
  | nil => simp [contains]
  | cons a xs ih =>
    obtain ⟨ha, hxs⟩ := List.pairwise_cons.mp h
    rw [contains]
    split
    · rename_i hn
      refine iff_of_false (by simp) fun hmem => ?_
      rcases List.mem_cons.mp hmem with rfl | hmem
      · exact Nat.lt_irrefl _ hn
      · exact Nat.lt_asymm hn (ha n hmem)
    · rw [Bool.or_eq_true, beq_iff_eq, ih hxs, List.mem_cons, eq_comm]

@[simp] theorem mem_insert {m n : Nat} {xs : List Nat} : m ∈ insert n xs ↔ m = n ∨ m ∈ xs := by
  induction xs with
  | nil => simp [insert]
  | cons a xs ih =>
    rw [insert]
    split
    · simp
    · split
      · rename_i h
        simp [h]
      · simp [ih, or_left_comm]

theorem insert_pairwise {n : Nat} {xs : List Nat} (h : xs.Pairwise (· < ·)) :
    (insert n xs).Pairwise (· < ·) := by
  induction xs with
  | nil => simp [insert]
  | cons a xs ih =>
    obtain ⟨ha, hxs⟩ := List.pairwise_cons.mp h
    rw [insert]
    split
    · rename_i hn
      refine List.pairwise_cons.mpr ⟨fun b hb => ?_, h⟩
      rcases List.mem_cons.mp hb with rfl | hb
      · exact hn
      · exact Nat.lt_trans hn (ha b hb)
    · split
      · exact h
      · refine List.pairwise_cons.mpr ⟨fun b hb => ?_, ih hxs⟩
        rcases mem_insert.mp hb with rfl | hb
        · omega
        · exact ha b hb

@[simp] theorem mem_ofList {n : Nat} {xs : List Nat} : n ∈ ofList xs ↔ n ∈ xs := by
  induction xs with
  | nil => simp [ofList]
  | cons a xs ih => rw [ofList, List.foldr_cons, mem_insert, ← ofList, ih, List.mem_cons]

theorem ofList_pairwise (xs : List Nat) : (ofList xs).Pairwise (· < ·) := by
  induction xs with
  | nil => exact List.Pairwise.nil
  | cons a xs ih => exact insert_pairwise ih

end Infeasibility.Ascending
