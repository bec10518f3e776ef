import Infeasibility.Proofs.Conflict.Runs
import Infeasibility.Proofs.Diagnosis.Safety
import Mathlib.Data.List.DropRight

/-! # Links of live indicators

A table forgets links from the end and gives their identifiers away again, but no link is forgotten
while its indicator is live. A search for a smallest correction makes indicators, records links and
releases what it made, unless there is a misuse on the way. -/

namespace Infeasibility.Conflict

namespace Table

variable {table : Table} {i count : Nat}

/-! ## Endings -/

theorem mem_live_release {released : List Nat} :
    i ∈ (table.release released).live ↔ i ∈ table.live ∧ i ∉ released := by
  simp [release]

theorem mem_live_addIndicator :
    i ∈ table.addIndicator.live ↔ i = table.nextIndicator.toNat ∨ i ∈ table.live :=
  Ascending.mem_insert

theorem mem_live_withIndicators : i ∈ (table.withIndicators count).live ↔
    i ∈ table.nextIndicators count ∨ i ∈ table.live := by
  induction count generalizing table with
  | zero => simp [withIndicators_zero, nextIndicators]
  | succ count ih =>
      rw [← withIndicators_addIndicator, ih, mem_live_addIndicator, nextIndicators_succ,
        List.mem_cons, or_left_comm, or_assoc]

/-- The live indicators are in increasing order. -/
def IsIncreasing (table : Table) : Prop :=
  table.live.Pairwise (· < ·)

theorem IsIncreasing.release (h : table.IsIncreasing) (released : List Nat) :
    (table.release released).IsIncreasing :=
  h.filter _

theorem IsIncreasing.addIndicator (h : table.IsIncreasing) : table.addIndicator.IsIncreasing :=
  Ascending.insert_pairwise h

theorem IsIncreasing.withIndicators (h : table.IsIncreasing) (count : Nat) :
    (table.withIndicators count).IsIncreasing := by
  induction count generalizing table with
  | zero =>
      rw [withIndicators_zero]
      exact h
  | succ count ih =>
      rw [← withIndicators_addIndicator]
      exact ih h.addIndicator

/-! ## Links -/

end Table

/-! ## Questions -/

variable {table : Table} {i position : Nat} {link : Link}

/-- At most some links were recorded behind the others. -/
structure Records (before after : Table) : Prop where
  live_eq : after.live = before.live
  nextIndicator_eq : after.nextIndicator = before.nextIndicator
  links_prefix : before.links <+: after.links

theorem Records.refl (table : Table) : Records table table :=
  ⟨rfl, rfl, List.prefix_rfl⟩

theorem Records.trans {first second third : Table} (h : Records first second)
    (h' : Records second third) : Records first third :=
  ⟨h'.live_eq.trans h.live_eq, h'.nextIndicator_eq.trans h.nextIndicator_eq,
    h.links_prefix.trans h'.links_prefix⟩

theorem records_addLink (table : Table) (link : Link) : Records table (table.addLink link) :=
  ⟨rfl, rfl, List.prefix_append _ _⟩

theorem records_answering {α : Type} (answer : Table → Except Misuse (Except OracleError α)) :
    Records table (Table.answering answer table).2 := by
  rw [Table.answering]
  split <;> exact ⟨rfl, rfl, List.prefix_rfl⟩

/-- The question neither makes indicators nor releases them. -/
def IsRecording (question : Question Nat Nat) : Prop :=
  question ≠ .newIndicator ∧ ∀ released, question ≠ .release released

theorem IsRecording.records_answer {question : Question Nat Nat} (h : IsRecording question) :
    Records table (oracle.answer question table).2 := by
  cases question with
  | solve constraints => exact records_answering fun table => table.verdict constraints
  | newIndicator => exact absurd rfl h.1
  | implication indicator constraint =>
      change Records table (if _ then _ else _ : Except Misuse Nat × Table).2
      split
      · exact records_addLink table _
      · exact .refl table
  | release released => exact absurd rfl (h.2 released)
  | supportsSoft => exact .refl table
  | maximize hard soft => exact records_answering fun table => table.optimize hard soft

theorem isRecording_or (question : Question Nat Nat) :
    IsRecording question ∨ question = .newIndicator ∨ ∃ released, question = .release released := by
  cases question <;> simp [IsRecording]

theorem records_run_of_asks {α : Type} {x : Dialogue Nat (List Nat) Nat α}
    (hx : x.Asks IsRecording) : Records table (x.run oracle table).2 := by
  apply Dialogue.snd_run_of_asks (I := Records table) hx ?_ (.refl table)
  intro question next hquestion hnext
  exact hnext.trans hquestion.records_answer

/-! ## Corrections -/

/-- Some indicators were made and links recorded. The indicators were then released, unless there
was a misuse on the way. -/
def Borrows {α : Type} (table : Table) (count : Nat) (run : Except Misuse α × Table) : Prop :=
  ∃ linked, Records (table.withIndicators count) linked ∧
    ((∃ misuse, run = (.error misuse, linked)) ∨
      Records (linked.release (table.nextIndicators count)) run.2)

variable {α : Type} {run : Except Misuse α × Table} {count : Nat}

/-- It does not matter what a misuse has kept from coming to a result. -/
theorem Borrows.of_error {β : Type} {misuse : Misuse} {final : Table}
    (h : Borrows table count ((.error misuse, final) : Except Misuse α × Table)) :
    Borrows table count ((.error misuse, final) : Except Misuse β × Table) := by
  obtain ⟨linked, hlinked, ⟨_, herror⟩ | hreleased⟩ := h
  · obtain rfl : final = linked := congrArg Prod.snd herror
    exact ⟨final, hlinked, .inl ⟨misuse, rfl⟩⟩
  · exact ⟨linked, hlinked, .inr hreleased⟩

/-- What has come to a result may go on with questions that make no indicators. -/
theorem Borrows.records {value : α} {released : Table}
    (h : Borrows table count ((.ok value, released) : Except Misuse α × Table)) {β : Type}
    {final : Except Misuse β × Table} (hfinal : Records released final.2) :
    Borrows table count final := by
  obtain ⟨linked, hlinked, ⟨_, herror⟩ | hreleased⟩ := h
  · cases herror
  · exact ⟨linked, hlinked, .inr (hreleased.trans hfinal)⟩

/-- Links are recorded until one of them would be a misuse. Nothing else can fail. -/
theorem exists_run_implications (pairs : List (Nat × Nat)) (table : Table) :
    ∃ (links : Except Misuse (List Nat)) (linked : Table),
      (pairs.mapM fun (indicator, constraint) =>
        (ExceptT.lift (Dialogue.implication indicator constraint) :
          Inquiry Nat (List Nat) Nat OracleError Nat)).run.run oracle table =
        (links.map .ok, linked) ∧ Records table linked := by
  induction pairs generalizing table with
  | nil => exact ⟨.ok [], table, rfl, .refl table⟩
  | cons pair pairs ih =>
      obtain ⟨indicator, constraint⟩ := pair
      have hrecording : IsRecording (.implication indicator constraint) := by simp [IsRecording]
      have hrecords : Records table (oracle.answer (.implication indicator constraint) table).2 :=
        hrecording.records_answer
      rw [List.mapM_cons]
      rcases hlink : oracle.answer (.implication indicator constraint) table
        with ⟨misuse | link, next⟩
      all_goals rw [hlink] at hrecords
      · refine ⟨.error misuse, next, ?_, hrecords⟩
        exact Inquiry.run_bind_of_misuse
          (Inquiry.run_lift_of_error (Dialogue.run_ask_of_error hlink))
      · obtain ⟨links, linked, hrun, hlinked⟩ := ih next
        refine ⟨links.map (link :: ·), linked, ?_, hrecords.trans hlinked⟩
        rw [Inquiry.run_bind_of_ok (Inquiry.run_lift_of_ok (Dialogue.run_ask_of_ok hlink)),
          Inquiry.run_bind_apply, hrun]
        cases links <;> rfl

/-- The indicators that are made are released, unless there is a misuse on the way. -/
theorem borrows_maximizeIndicators (table : Table) (problem : Problem Nat) :
    Borrows table problem.soft.length (problem.maximizeIndicators.run.run oracle table) := by
  let indicators := table.nextIndicators problem.soft.length
  let made := table.withIndicators problem.soft.length
  have hmade := run_newIndicators (ε := OracleError) problem.soft table
  obtain ⟨misuse | links, linked, hlinked, hrecords⟩ :=
    exists_run_implications (indicators.zip problem.soft) made
  · rw [Problem.maximizeIndicators, Inquiry.run_bind_of_ok hmade,
      Inquiry.run_bind_of_misuse hlinked]
    exact ⟨linked, hrecords, .inl ⟨misuse, rfl⟩⟩
  · let hard := problem.hard ++ links
    let terms := indicators.map (SoftTerm.indicator (C := Nat))
    have hasked_records : Records linked (oracle.maximize hard terms linked).2 :=
      records_answering fun table => table.optimize hard terms
    rcases hasked : oracle.maximize hard terms linked with ⟨misuse | answer, asked⟩
    all_goals rw [hasked] at hasked_records
    · have hrun : (Dialogue.maximize hard terms : Dialogue Nat (List Nat) Nat _).run oracle linked =
          (.error misuse, asked) :=
        Dialogue.run_ask_of_error hasked
      rw [Problem.maximizeIndicators, Inquiry.run_bind_of_ok hmade, Inquiry.run_bind_of_ok hlinked,
        Inquiry.run_bind_of_misuse (Inquiry.run_lift_of_error hrun)]
      exact ⟨asked, hrecords.trans hasked_records, .inl ⟨misuse, rfl⟩⟩
    · rw [Problem.run_maximizeIndicators hmade hlinked hasked rfl]
      exact ⟨asked, hrecords.trans hasked_records, .inr (.refl _)⟩

theorem borrows_correctionByIndicators (table : Table) {problem : Problem Nat}
    (hsoft : problem.soft ≠ []) (verify : Bool) :
    Borrows table problem.soft.length
      ((problem.correctionByIndicators verify).run.run oracle table) := by
  have hP : problem.QuestionsSatisfy IsRecording := fun _ _ _ => by simp [IsRecording]
  have hborrows := borrows_maximizeIndicators table problem
  rw [Problem.run_correctionByIndicators hsoft]
  generalize problem.maximizeIndicators.run.run oracle table = maximized at hborrows ⊢
  rcases maximized with ⟨misuse | cause | optimum, final⟩
  · exact hborrows.of_error
  · exact hborrows.records (.refl final)
  · have hconclude := hP.asks_correctionOfOptimum (A := List Nat) verify "indicators" optimum
    exact hborrows.records (records_run_of_asks hconclude)

theorem records_diagnose {method : Method} {verify : Bool} {problem : Problem Nat}
    (h : method = .indicators → problem.soft = []) :
    Records table ((method.diagnose verify problem).run.run oracle table).2 := by
  have hP : problem.QuestionsSatisfy IsRecording := fun _ _ _ => by simp [IsRecording]
  cases method with
  | deletion => exact records_run_of_asks (hP.asks_minimalCore verify)
  | growth => exact records_run_of_asks (hP.asks_correctionByGrowth verify)
  | indicators =>
      rw [Method.diagnose, Problem.correctionByIndicators, Problem.requireSoft_of_eq_nil (h rfl)]
      exact .refl table
  | softTerms =>
      exact records_run_of_asks (hP.asks_correctionBySoftTerms verify (by simp [IsRecording])
        fun _ _ _ => by simp [IsRecording])

end Infeasibility.Conflict
