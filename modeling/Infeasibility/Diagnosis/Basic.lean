import Infeasibility.Ascending
import Infeasibility.Listing

/-!
# Diagnoses

A diagnosis points out some of the constraints of a source. The rest of the source is its
complement.
-/

namespace Infeasibility

/-- Some positions of a source, in increasing order. -/
structure Diagnosis {α : Type} (source : List α) where
  positions : List Nat
  increasing : positions.Pairwise (· < ·)
  lt_length : ∀ position ∈ positions, position < source.length
  deriving DecidableEq

namespace Diagnosis

variable {α : Type} {source : List α}

/-- Whether a list consists of strictly increasing positions of a source of the given length. The
last position speaks for all others. -/
def isValid (length : Nat) (positions : List Nat) : Bool :=
  Ascending.isAscending positions && positions.getLast?.all (· < length)

theorem isValid_iff {length : Nat} {positions : List Nat} :
    isValid length positions ↔
      positions.Pairwise (· < ·) ∧ ∀ position ∈ positions, position < length := by
  rw [isValid, Bool.and_eq_true, Ascending.isAscending_iff]
  refine and_congr_right fun h => ?_
  rcases List.eq_nil_or_concat positions with rfl | ⟨front, last, rfl⟩
  · simp
  · simp only [List.concat_eq_append, List.getLast?_append, List.getLast?_singleton,
      Option.some_or, Option.all_some, decide_eq_true_eq] at h ⊢
    refine ⟨fun hlast position hmem => ?_, fun hall => hall last (by simp)⟩
    rcases List.mem_append.mp hmem with hmem | hmem
    · exact Nat.lt_trans ((List.pairwise_append.mp h).2.2 position hmem last (by simp)) hlast
    · exact List.mem_singleton.mp hmem ▸ hlast

/-- The diagnosis with these positions, if they are valid. -/
def ofPositions? (source : List α) (positions : List Nat) : Option (Diagnosis source) :=
  if h : isValid source.length positions then
    some ⟨positions, (isValid_iff.mp h).1, (isValid_iff.mp h).2⟩
  else
    none

def size (diagnosis : Diagnosis source) : Nat :=
  diagnosis.positions.length

def isEmpty (diagnosis : Diagnosis source) : Bool :=
  diagnosis.positions.isEmpty

def contains (diagnosis : Diagnosis source) (position : Nat) : Bool :=
  Ascending.contains position diagnosis.positions

/-- The positions of the source that are not in the diagnosis. -/
def complement (diagnosis : Diagnosis source) : List Nat :=
  (List.range source.length).filter fun position => !diagnosis.contains position

/-- The elements of the source that the diagnosis points out. -/
def toList (diagnosis : Diagnosis source) : List α :=
  diagnosis.positions.filterMap fun position => source[position]?

/-- The elements on one line. -/
def inline (render : α → String) (diagnosis : Diagnosis source) : String :=
  Listing.inline (diagnosis.toList.map render)

/-- The elements one to a line. -/
def block (render : α → String) (diagnosis : Diagnosis source) : String :=
  Listing.block (diagnosis.toList.map render)

end Diagnosis

end Infeasibility
