import Mathlib.Data.List.Forall2

/-! # Results

When a result is made from others, or a list of results from a list, it is an error if one of them
is. -/

namespace Infeasibility

theorem map_eq_ok_iff {α β ε : Type} {f : α → β} {x : Except ε α} {result : β} :
    f <$> x = .ok result ↔ ∃ value, x = .ok value ∧ f value = result := by
  cases x <;> simp

theorem map_eq_error_iff {α β ε : Type} {f : α → β} {x : Except ε α} {error : ε} :
    f <$> x = .error error ↔ x = .error error := by
  cases x <;> simp

theorem bind_eq_ok_iff {α β ε : Type} {x : Except ε α} {f : α → Except ε β} {result : β} :
    x >>= f = .ok result ↔ ∃ value, x = .ok value ∧ f value = .ok result := by
  cases x <;> simp [bind, Except.bind]

theorem bind_eq_error_iff {α β ε : Type} {x : Except ε α} {f : α → Except ε β} {error : ε} :
    x >>= f = .error error ↔
      x = .error error ∨ ∃ value, x = .ok value ∧ f value = .error error := by
  cases x <;> simp [bind, Except.bind]

theorem mapM_eq_ok_iff {α β ε : Type} {f : α → Except ε β} {xs : List α} {ys : List β} :
    xs.mapM f = .ok ys ↔ List.Forall₂ (fun x y => f x = .ok y) xs ys := by
  induction xs generalizing ys with
  | nil =>
      rw [List.mapM_nil, List.forall₂_nil_left_iff]
      exact ⟨fun h => (Except.ok.inj h).symm, fun h => congrArg Except.ok h.symm⟩
  | cons x xs ih =>
      rw [List.mapM_cons, List.forall₂_cons_left_iff]
      constructor
      · intro h
        rcases hx : f x with error | y
        · rw [hx] at h
          cases h
        rcases hxs : xs.mapM f with error | rest
        · rw [hx, hxs] at h
          cases h
        · rw [hx, hxs] at h
          exact ⟨y, rest, rfl, ih.mp hxs, (Except.ok.inj h).symm⟩
      · rintro ⟨y, rest, hx, hxs, rfl⟩
        rw [hx, ih.mpr hxs]
        rfl

theorem exists_of_mapM_eq_error {α β ε : Type} {f : α → Except ε β} {xs : List α} {error : ε}
    (h : xs.mapM f = .error error) : ∃ x ∈ xs, f x = .error error := by
  induction xs with
  | nil => cases h
  | cons x xs ih =>
      rw [List.mapM_cons] at h
      rcases hx : f x with cause | y
      · rw [hx] at h
        cases h
        exact ⟨x, List.mem_cons_self, hx⟩
      rcases hxs : xs.mapM f with cause | rest
      · rw [hx, hxs] at h
        cases h
        obtain ⟨other, hmem, hother⟩ := ih hxs
        exact ⟨other, List.mem_cons_of_mem x hmem, hother⟩
      · rw [hx, hxs] at h
        cases h

theorem exists_mapM_eq_ok {α β ε : Type} {f : α → Except ε β} {xs : List α}
    (h : ∀ x ∈ xs, ∃ y, f x = .ok y) : ∃ ys, xs.mapM f = .ok ys := by
  rcases hxs : xs.mapM f with error | ys
  · obtain ⟨x, hx, herror⟩ := exists_of_mapM_eq_error hxs
    obtain ⟨y, hy⟩ := h x hx
    rw [herror] at hy
    cases hy
  · exact ⟨ys, rfl⟩

/-- What is the same of an element and of what is made from it is the same of both lists. -/
theorem map_eq_map_of_mapM {α β γ ε : Type} {f : α → Except ε β} {g : α → γ} {g' : β → γ}
    {xs : List α} {ys : List β} (h : xs.mapM f = .ok ys) (hsame : ∀ x y, f x = .ok y → g x = g' y) :
    xs.map g = ys.map g' := by
  have hpairs : List.Forall₂ (· = ·) (xs.map g) (ys.map g') := by
    rw [List.forall₂_map_left_iff, List.forall₂_map_right_iff]
    exact (mapM_eq_ok_iff.mp h).imp hsame
  rwa [List.forall₂_eq_eq_eq] at hpairs

end Infeasibility
