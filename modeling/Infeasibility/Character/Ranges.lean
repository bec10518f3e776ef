/-!
# Ranges of characters

A set of characters, written as closed ranges of code points in increasing order. The main
statement, `covers_iff`, says that the search for a code point may stop at the first range that
lies beyond it.
-/

namespace Infeasibility.Character

/-- The first and the last code point of each range. -/
abbrev Ranges := List (Nat × Nat)

namespace Ranges

/-- Whether no range is empty and each begins after the one before it, the first not before
`start`. -/
def isAscending (start : Nat) : Ranges → Bool
  | [] => true
  | (first, last) :: rest => start ≤ first && first ≤ last && isAscending (last + 1) rest

/-- Looks for a code point, no further than the first range beyond it. -/
def covers (code : Nat) : Ranges → Bool
  | [] => false
  | (first, last) :: rest => if code < first then false else code ≤ last || covers code rest

theorem le_of_isAscending {start : Nat} {ranges : Ranges} (h : isAscending start ranges) :
    ∀ range ∈ ranges, start ≤ range.1 := by
  induction ranges generalizing start with
  | nil => simp
  | cons head rest ih =>
    obtain ⟨first, last⟩ := head
    simp only [isAscending, Bool.and_eq_true, decide_eq_true_eq] at h
    obtain ⟨⟨hstart, hlast⟩, hrest⟩ := h
    intro range hmem
    rcases List.mem_cons.mp hmem with rfl | hmem
    · exact hstart
    · have := ih hrest range hmem
      omega

theorem covers_iff {start code : Nat} {ranges : Ranges} (h : isAscending start ranges) :
    covers code ranges ↔ ∃ range ∈ ranges, range.1 ≤ code ∧ code ≤ range.2 := by
  induction ranges generalizing start with
  | nil => simp [covers]
  | cons head rest ih =>
    obtain ⟨first, last⟩ := head
    simp only [isAscending, Bool.and_eq_true, decide_eq_true_eq] at h
    obtain ⟨⟨_, hlast⟩, hrest⟩ := h
    simp only [covers, List.mem_cons, exists_eq_or_imp]
    split
    · refine iff_of_false (by simp) ?_
      rintro (⟨hfirst, _⟩ | ⟨range, hmem, hfirst, _⟩)
      · omega
      · have := le_of_isAscending hrest range hmem
        omega
    · rw [Bool.or_eq_true, decide_eq_true_eq, ih hrest]
      refine or_congr_left ⟨fun hcode => ⟨by omega, hcode⟩, fun hcode => hcode.2⟩

end Ranges

end Infeasibility.Character
