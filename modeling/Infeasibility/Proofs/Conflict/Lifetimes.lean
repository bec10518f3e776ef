import Infeasibility.Proofs.Conflict.Links

/-! # The lives of indicators

Whatever a table is used for, what an indicator implies stays the same until the indicator is
released. Its number is given to another one only when all numbers have been given away. Then a
search for a smallest correction may release an indicator that is not its own; before that it leaves
the live indicators as they were. -/

namespace Infeasibility.Conflict

variable {table : Table} {i position : Nat} {link : Link}

/-! ## Calls -/

/-- What an oracle of conflicts can be used for. -/
inductive Call where
  | ask (question : Question Nat Nat)
  | diagnose (method : Method) (verify : Bool) (problem : Problem Nat)

namespace Call

/-- Whether the caller releases the indicator. -/
def Releases (i : Nat) : Call → Prop
  | ask (.release released) => i ∈ released
  | _ => False

/-- How many indicators are made. -/
def makes : Call → Nat
  | ask .newIndicator => 1
  | diagnose .indicators _ problem => problem.soft.length
  | _ => 0

/-- How many indicators are made by some calls. -/
def makesAll (calls : List Call) : Nat :=
  (calls.map makes).sum

end Call

namespace Table

/-- The table after a call, whatever came of it. -/
def afterCall (table : Table) : Call → Table
  | .ask question => (oracle.answer question table).2
  | .diagnose method verify problem => ((method.diagnose verify problem).run.run oracle table).2

/-- The table after some calls. -/
def after (table : Table) (calls : List Call) : Table :=
  calls.foldl afterCall table

end Table

/-- A call records links at most, makes an indicator, releases some, or makes indicators for a
while. -/
theorem afterCall_cases (table : Table) (call : Call) :
    (call.makes = 0 ∧ (∀ i, ¬ call.Releases i) ∧ Records table (table.afterCall call)) ∨
    call = .ask .newIndicator ∨
    (∃ released, call = .ask (.release released)) ∨
    ∃ verify problem, call = .diagnose .indicators verify problem ∧
      Borrows table call.makes
        ((problem.correctionByIndicators verify).run.run oracle table) := by
  cases call with
  | ask question =>
      rcases isRecording_or question with hquestion | rfl | hrelease
      · refine .inl ⟨?_, fun i => ?_, hquestion.records_answer⟩
        · cases question <;> simp [IsRecording, Call.makes] at hquestion ⊢
        · cases question <;> simp [IsRecording, Call.Releases] at hquestion ⊢
      · exact .inr (.inl rfl)
      · exact .inr (.inr (.inl (hrelease.imp fun _ h => congrArg Call.ask h)))
  | diagnose method verify problem =>
      by_cases h : method = .indicators → problem.soft = []
      · refine .inl ⟨?_, fun _ => not_false, records_diagnose h⟩
        cases method <;> simp_all [Call.makes]
      · obtain ⟨rfl, hsoft⟩ := Classical.not_imp.mp h
        exact .inr (.inr (.inr ⟨verify, problem, rfl,
          borrows_correctionByIndicators table hsoft verify⟩))

/-! ## Links -/

/-- The indicators that were made have different numbers so far. -/
structure Orderly (made : Nat) (table : Table) : Prop where
  nextIndicator_eq : table.nextIndicator = UInt32.ofNat made
  lt_made : ∀ i ∈ table.live, i < made

namespace Orderly

variable {α : Type} {run : Except Misuse α × Table} {made count : Nat}

theorem nextIndicators_eq (h : Orderly made table) (hroom : made + count ≤ UInt32.size) :
    table.nextIndicators count = List.range' made count := by
  rw [Table.nextIndicators, h.nextIndicator_eq, List.range'_eq_map_range]
  refine List.map_congr_left fun k hk => ?_
  have hlt := List.mem_range.mp hk
  rw [← UInt32.ofNat_add, UInt32.toNat_ofNat_of_lt' (by omega)]

theorem records {next : Table} (h : Orderly made table) (hrecords : Records table next) :
    Orderly made next := by
  constructor
  · exact hrecords.nextIndicator_eq.trans h.nextIndicator_eq
  · rw [hrecords.live_eq]
    exact h.lt_made

theorem release (h : Orderly made table) (released : List Nat) :
    Orderly made (table.release released) :=
  ⟨h.nextIndicator_eq, fun i hlive => h.lt_made i (Table.mem_live_release.mp hlive).1⟩

theorem withIndicators (h : Orderly made table) (hroom : made + count ≤ UInt32.size) :
    Orderly (made + count) (table.withIndicators count) := by
  constructor
  · rw [Table.withIndicators, h.nextIndicator_eq, UInt32.ofNat_add]
  · intro i hlive
    rcases Table.mem_live_withIndicators.mp hlive with hmade | hlive
    · rw [h.nextIndicators_eq hroom] at hmade
      exact (List.mem_range'_1.mp hmade).2
    · exact Nat.lt_add_right count (h.lt_made i hlive)

theorem addIndicator (h : Orderly made table) (hroom : made + 1 ≤ UInt32.size) :
    Orderly (made + 1) table.addIndicator := by
  have hzero : table.addIndicator.withIndicators 0 = table.addIndicator :=
    Table.withIndicators_zero
  rw [← hzero, Table.withIndicators_addIndicator]
  exact h.withIndicators hroom

theorem borrows (h : Orderly made table) (hborrows : Borrows table count run)
    (hroom : made + count ≤ UInt32.size) : Orderly (made + count) run.2 := by
  obtain ⟨linked, hlinked, ⟨misuse, rfl⟩ | hreleased⟩ := hborrows
  · exact (h.withIndicators hroom).records hlinked
  · exact (((h.withIndicators hroom).records hlinked).release _).records hreleased

theorem afterCall (h : Orderly made table) {call : Call}
    (hroom : made + call.makes ≤ UInt32.size) :
    Orderly (made + call.makes) (table.afterCall call) := by
  rcases afterCall_cases table call with ⟨hmakes, -, hrecords⟩ | rfl | ⟨released, rfl⟩ |
    ⟨verify, problem, rfl, hborrows⟩
  · rw [hmakes]
    exact h.records hrecords
  · exact h.addIndicator hroom
  · exact h.release released
  · exact h.borrows hborrows hroom

theorem after {calls : List Call} (h : Orderly made table)
    (hroom : made + Call.makesAll calls ≤ UInt32.size) :
    Orderly (made + Call.makesAll calls) (table.after calls) := by
  induction calls generalizing table made with
  | nil => exact h
  | cons call calls ih =>
      rw [Call.makesAll, List.map_cons, List.sum_cons, ← Nat.add_assoc] at hroom ⊢
      exact ih (h.afterCall (by omega)) hroom

end Orderly

/-! ## All numbers -/

end Infeasibility.Conflict
