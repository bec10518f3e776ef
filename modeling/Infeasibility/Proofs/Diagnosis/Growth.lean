import Infeasibility.Proofs.Conflict.Consistency
import Infeasibility.Proofs.Diagnosis.Protocol

/-! # Correctness of growth

Growth rejects a position only after a verdict against it together with the positions that were
kept before it. What is kept in the end has a verdict of its own. These verdicts single out one
correction among all. -/

namespace Infeasibility.Problem

variable {σ C A ι : Type} {problem : Problem C}

/-! ## The growth loop -/

/-- The verdicts that the loop rests on when it rejects `found` of the pending positions: one
against each of them, and one on all that is kept. -/
structure GrowVerdicts (problem : Problem C) (exchanges : List (Exchange C A ι))
    (kept pending found : List Nat) : Prop where
  sublist : found.Sublist pending
  against : ∀ position ∈ found, Answered exchanges (problem.select
    (kept ++ pending.filter (fun other => other < position ∧ other ∉ found) ++ [position])) false
  left : pending.filter (· ∉ found) = [] ∨
    Answered exchanges (problem.select (kept ++ pending.filter (· ∉ found))) true

theorem GrowVerdicts.keep {kept pending found : List Nat} {position : Nat}
    {first second : List (Exchange C A ι)} (hlt : ∀ other ∈ pending, position < other)
    (hverdict : Answered first (problem.select (kept ++ [position])) true)
    (h : problem.GrowVerdicts second (kept ++ [position]) pending found) :
    problem.GrowVerdicts (first ++ second) kept (position :: pending) found := by
  have hnot : position ∉ found := by
    intro hmem
    exact (hlt position (h.sublist.subset hmem)).false
  have hleft : (position :: pending).filter (· ∉ found) =
      position :: pending.filter (· ∉ found) :=
    List.filter_cons_of_pos (by simpa using hnot)
  refine ⟨h.sublist.cons position, ?_, .inr ?_⟩
  · intro other hother
    have hpos := hlt other (h.sublist.subset hother)
    rw [List.filter_cons_of_pos (by simpa using ⟨hpos, hnot⟩)]
    have hanswer : Answered (first ++ second) _ false := (h.against other hother).append_left
    simpa using hanswer
  · rw [hleft]
    rcases h.left with hnil | hleft
    · rw [hnil]
      exact hverdict.append_right
    · have hanswer : Answered (first ++ second) _ true := hleft.append_left
      simpa using hanswer

theorem GrowVerdicts.reject {kept pending found : List Nat} {position : Nat}
    {first second : List (Exchange C A ι)} (hlt : ∀ other ∈ pending, position < other)
    (hverdict : Answered first (problem.select (kept ++ [position])) false)
    (h : problem.GrowVerdicts second kept pending found) :
    problem.GrowVerdicts (first ++ second) kept (position :: pending) (position :: found) := by
  have hmem_iff : ∀ other ∈ pending, other ∉ position :: found ↔ other ∉ found := by
    intro other hmem
    simp [(hlt other hmem).ne']
  have hleft : (position :: pending).filter (· ∉ position :: found) =
      pending.filter (· ∉ found) := by
    rw [List.filter_cons_of_neg (by simp)]
    exact List.filter_congr fun other hmem => by simp only [hmem_iff other hmem]
  refine ⟨h.sublist.cons_cons position, ?_, ?_⟩
  · intro other hother
    rcases List.mem_cons.mp hother with rfl | hother
    · have hbefore : (other :: pending).filter
          (fun earlier => earlier < other ∧ earlier ∉ other :: found) = [] := by
        refine List.filter_eq_nil_iff.mpr fun x hx => ?_
        rcases List.mem_cons.mp hx with rfl | hx
        · simp
        · simpa using fun hlt' => absurd hlt' (hlt x hx).asymm
      rw [hbefore, List.append_nil]
      exact hverdict.append_right
    · have hbefore : (position :: pending).filter
            (fun earlier => earlier < other ∧ earlier ∉ position :: found) =
          pending.filter (fun earlier => earlier < other ∧ earlier ∉ found) := by
        rw [List.filter_cons_of_neg (by simp)]
        exact List.filter_congr fun x hx => by simp only [hmem_iff x hx]
      rw [hbefore]
      exact (h.against other hother).append_left
  · rw [hleft]
    exact h.left.imp_right Answered.append_left

theorem GrowVerdicts.append_left {kept pending found : List Nat}
    {first second : List (Exchange C A ι)}
    (h : problem.GrowVerdicts second kept pending found) :
    problem.GrowVerdicts (first ++ second) kept pending found :=
  ⟨h.sublist, fun position hmem => (h.against position hmem).append_left,
    h.left.imp_right Answered.append_left⟩

theorem yields_grow {kept rejected pending : List Nat} {exchanges : List (Exchange C A ι)}
    {result : List Nat} (hkept : ∀ position ∈ kept, position < problem.soft.length)
    (hpending : ∀ position ∈ pending, position < problem.soft.length)
    (hincreasing : pending.Pairwise (· < ·))
    (h : (problem.grow kept rejected pending).run.Yields exchanges (.ok result)) :
    ∃ found, result = rejected ++ found ∧ problem.GrowVerdicts exchanges kept pending found := by
  induction pending generalizing kept rejected exchanges with
  | nil =>
      obtain ⟨rfl, hresult⟩ := Dialogue.yields_done_iff.mp h
      cases hresult
      exact ⟨[], by simp, .slnil, by simp, .inl rfl⟩
  | cons position pending ih =>
      obtain ⟨hposition, hpending⟩ := List.forall_mem_cons.mp hpending
      obtain ⟨hlt, hincreasing⟩ := List.pairwise_cons.mp hincreasing
      have hasked : ∀ other ∈ kept ++ [position], other < problem.soft.length :=
        List.forall_mem_append.mpr ⟨hkept, by simpa using hposition⟩
      obtain ⟨first, second, outcome, rfl, hask, hrest⟩ := Inquiry.yields_bind_ok_iff.mp h
      have hverdict := answered_of_yields_ask hasked hask
      cases hsat : outcome.isSat with
      | true =>
          rw [hsat] at hverdict hrest
          obtain ⟨found, hresult, hfound⟩ := ih hasked hpending hincreasing hrest
          exact ⟨found, hresult, hfound.keep hlt hverdict⟩
      | false =>
          rw [hsat] at hverdict hrest
          obtain ⟨found, hresult, hfound⟩ := ih hkept hpending hincreasing hrest
          exact ⟨position :: found, by simpa using hresult, hfound.reject hlt hverdict⟩

/-- The loop has no errors of its own. -/
theorem isTransparent_grow (problem : Problem C) (kept rejected pending : List Nat) :
    (problem.grow kept rejected pending : Inquiry C A ι OracleError (List Nat)).IsTransparent := by
  induction pending generalizing kept rejected with
  | nil => exact Inquiry.passesOn_pure rejected
  | cons position pending ih =>
      refine (problem.isTransparent_ask _).bind fun _ outcome _ => ?_
      split
      · exact ih (kept ++ [position]) rejected
      · exact ih kept (rejected ++ [position])

theorem QuestionsSatisfy.asks_grow {P : Question C ι → Prop} (hP : problem.QuestionsSatisfy P)
    {kept rejected pending : List Nat} (hincreasing : (kept ++ pending).Pairwise (· < ·))
    (hlt : ∀ position ∈ kept ++ pending, position < problem.soft.length) :
    (problem.grow kept rejected pending : Inquiry C A ι OracleError (List Nat)).run.Asks P := by
  induction pending generalizing kept rejected with
  | nil => exact Dialogue.asks_done P _
  | cons position pending ih =>
      have hasked : (kept ++ [position]).Sublist (kept ++ position :: pending) :=
        (List.Sublist.refl kept).append ((List.nil_sublist pending).cons_cons position)
      have hskipped : (kept ++ pending).Sublist (kept ++ position :: pending) :=
        (List.Sublist.refl kept).append (List.sublist_cons_self position pending)
      refine Inquiry.asks_bind (hP.asks_ask (hincreasing.sublist hasked)
        fun other hmem => hlt other (hasked.subset hmem)) fun _ outcome _ => ?_
      split
      · exact ih (by simpa using hincreasing) (by simpa using hlt)
      · exact ih (hincreasing.sublist hskipped)
          fun other hmem => hlt other (hskipped.subset hmem)

/-! ## What growth rests on -/

/-- The verdicts that a correction found by growth rests on. -/
structure GrowthVerdicts (problem : Problem C) (exchanges : List (Exchange C A ι))
    (correction : Diagnosis problem.soft) : Prop where
  against : ∀ position ∈ correction.positions, Answered exchanges (problem.select
    (correction.complement.filter (· < position) ++ [position])) false
  left : correction.complement = [] ∨
    Answered exchanges (problem.select correction.complement) true

theorem GrowthVerdicts.append_right {first second : List (Exchange C A ι)}
    {correction : Diagnosis problem.soft} (h : problem.GrowthVerdicts first correction) :
    problem.GrowthVerdicts (first ++ second) correction :=
  ⟨fun position hmem => (h.against position hmem).append_right,
    h.left.imp_right Answered.append_right⟩

/-- What the loop finds in all positions rests on the verdicts of a growth. -/
theorem growthVerdicts_of_grow {exchanges : List (Exchange C A ι)}
    {correction : Diagnosis problem.soft}
    (h : problem.GrowVerdicts exchanges [] (List.range problem.soft.length)
      correction.positions) :
    problem.GrowthVerdicts exchanges correction := by
  have hcomplement : correction.complement =
      (List.range problem.soft.length).filter (· ∉ correction.positions) := by
    refine List.filter_congr fun position _ => ?_
    simp [← Diagnosis.contains_eq_true_iff]
  constructor
  · intro position hmem
    have hverdict := h.against position hmem
    rw [hcomplement, List.filter_filter]
    simpa using hverdict
  · rw [hcomplement]
    exact h.left

/-- How the check of the hard constraints can end. -/
theorem yields_requireHard {exchanges : List (Exchange C A ι)} {result : Except DiagnosisError Unit}
    (h : problem.requireHard.run.Yields exchanges result) :
    (∃ error, result = .error (.unavailable error) ∧ Failed exchanges error) ∨
    (Answered exchanges problem.hard false ∧
      result = .error (.invalidInput .hardUnsatisfiable)) ∨
    ((problem.hard = [] ∨ Answered exchanges problem.hard true) ∧ result = .ok ()) := by
  rw [requireHard] at h
  split at h
  · rename_i hempty
    exact .inr (.inr ⟨.inl (List.isEmpty_iff.mp hempty), (Dialogue.yields_done_iff.mp h).2⟩)
  rcases Inquiry.yields_bind_iff.mp h with
    ⟨error, hask, rfl⟩ | ⟨first, second, outcome, rfl, hask, h⟩
  · obtain ⟨cause, rfl, hfail⟩ := Inquiry.yields_orUnavailable_error_iff.mp hask
    exact .inl ⟨cause, rfl, failed_of_yields_ask (by simp) hfail⟩
  have hverdict := answered_of_yields_ask (by simp) (Inquiry.yields_orUnavailable_ok_iff.mp hask)
  rw [select_nil] at hverdict
  cases outcome with
  | unsatisfiable =>
      obtain ⟨rfl, rfl⟩ := Dialogue.yields_done_iff.mp h
      exact .inr (.inl ⟨hverdict.append_right, rfl⟩)
  | satisfiable assignment =>
      obtain ⟨rfl, rfl⟩ := Dialogue.yields_done_iff.mp h
      exact .inr (.inr ⟨.inr hverdict.append_right, rfl⟩)

/-- How a search for a correction by growth can end. -/
theorem yields_correctionByGrowth {verify : Bool} {exchanges : List (Exchange C A ι)}
    {result : Except DiagnosisError (Diagnosis problem.soft)} (hsoft : problem.soft ≠ [])
    (h : (problem.correctionByGrowth verify).run.Yields exchanges result) :
    (∃ error, result = .error (.unavailable error) ∧ (verify = true ∨ Failed exchanges error)) ∨
    (Answered exchanges problem.hard false ∧
      result = .error (.invalidInput .hardUnsatisfiable)) ∨
    (problem.hard = [] ∨ Answered exchanges problem.hard true) ∧
      ∃ correction : Diagnosis problem.soft, problem.GrowthVerdicts exchanges correction ∧
        (correction.positions = [] ∧ result = .error (.invalidInput .satisfiable) ∨
          correction.positions ≠ [] ∧ result = .ok correction) := by
  have hrange : ∀ position ∈ List.range problem.soft.length, position < problem.soft.length :=
    fun position hmem => List.mem_range.mp hmem
  rw [correctionByGrowth, requireSoft_of_ne_nil hsoft, pure_bind] at h
  rcases Inquiry.yields_bind_iff.mp h with
    ⟨error, hhard, rfl⟩ | ⟨first, rest, _, rfl, hhard, h⟩
  · rcases yields_requireHard hhard with
      ⟨cause, herror, hfailed⟩ | ⟨hverdict, herror⟩ | ⟨-, herror⟩
    · cases herror
      exact .inl ⟨cause, rfl, .inr hfailed⟩
    · cases herror
      exact .inr (.inl ⟨hverdict, rfl⟩)
    · cases herror
  have hhard : problem.hard = [] ∨ Answered first problem.hard true := by
    rcases yields_requireHard hhard with ⟨_, herror, -⟩ | ⟨-, herror⟩ | ⟨hhard, -⟩
    · cases herror
    · cases herror
    · exact hhard
  rcases Inquiry.yields_bind_iff.mp h with
    ⟨error, hgrow, rfl⟩ | ⟨second, third, rejected, rfl, hgrow, h⟩
  · obtain ⟨cause, rfl, hfail⟩ := Inquiry.yields_orUnavailable_error_iff.mp hgrow
    have hfailed : Failed rest cause := (problem.isTransparent_grow _ _ _).failed
      (problem.questionsSatisfy_isSolve.asks_grow List.pairwise_lt_range hrange) hfail
    exact .inl ⟨cause, rfl, .inr hfailed.append_left⟩
  · obtain ⟨found, hrejected, hfound⟩ := yields_grow (by simp) hrange List.pairwise_lt_range
      (Inquiry.yields_orUnavailable_ok_iff.mp hgrow)
    obtain rfl : rejected = found := by simpa using hrejected
    let correction : Diagnosis problem.soft :=
      ⟨rejected, List.pairwise_lt_range.sublist hfound.sublist,
        fun position hmem => hrange position (hfound.sublist.subset hmem)⟩
    have hverdicts : problem.GrowthVerdicts (first ++ second) correction :=
      growthVerdicts_of_grow hfound.append_left
    have hverdicts' : problem.GrowthVerdicts (first ++ (second ++ third)) correction := by
      rw [← List.append_assoc]
      exact hverdicts.append_right
    have hhard' : problem.hard = [] ∨
        Answered (first ++ (second ++ third)) problem.hard true :=
      hhard.imp_right Answered.append_right
    rcases yields_reject h with
      ⟨rfl, rfl⟩ | ⟨diagnosis, hpositions, hne, rfl⟩ | ⟨hverify, error, rfl⟩
    · exact .inr (.inr ⟨hhard', correction, hverdicts', .inl ⟨rfl, rfl⟩⟩)
    · obtain rfl : diagnosis = correction :=
        Diagnosis.ext_of_mem_iff (by simp [hpositions, correction])
      exact .inr (.inr ⟨hhard', correction, hverdicts', .inr ⟨hne, rfl⟩⟩)
    · exact .inl ⟨error, rfl, .inl hverify⟩

theorem QuestionsSatisfy.asks_correctionByGrowth {P : Question C ι → Prop}
    (hP : problem.QuestionsSatisfy P) (verify : Bool) :
    (problem.correctionByGrowth verify :
      Inquiry C A ι DiagnosisError (Diagnosis problem.soft)).run.Asks P := by
  have hrange : ∀ position ∈ List.range problem.soft.length, position < problem.soft.length :=
    fun position hmem => List.mem_range.mp hmem
  rw [correctionByGrowth]
  refine Inquiry.asks_bind asks_requireSoft fun _ _ _ => ?_
  refine Inquiry.asks_bind ?_ fun _ _ _ => ?_
  · rw [requireHard]
    split
    · exact Dialogue.asks_done P _
    refine Inquiry.asks_bind (Inquiry.asks_orUnavailable
      (hP.asks_ask List.Pairwise.nil (by simp))) fun _ outcome _ => ?_
    cases outcome <;> exact Dialogue.asks_done P _
  refine Inquiry.asks_bind (Inquiry.asks_orUnavailable
    (hP.asks_grow List.pairwise_lt_range hrange)) fun exchanges rejected hrejected => ?_
  obtain ⟨found, hfound, hverdicts⟩ := yields_grow (by simp) hrange List.pairwise_lt_range
    (Inquiry.yields_orUnavailable_ok_iff.mp hrejected)
  obtain rfl : rejected = found := by simpa using hfound
  refine hP.asks_reject verify (List.pairwise_lt_range.sublist hverdicts.sublist) ?_
  exact fun position hmem => hrange position (hverdicts.sublist.subset hmem)

/-! ## The correction that growth finds -/

section Truthful

variable {sat : List C → Prop} {exchanges : List (Exchange C A ι)}
  {correction other : Diagnosis problem.soft}

theorem GrowthVerdicts.isCorrection (htrue : Truthful sat exchanges) (hhard : sat problem.hard)
    (h : problem.GrowthVerdicts exchanges correction) : problem.IsCorrection sat correction := by
  rcases h.left with hnil | hleft
  · simpa [IsCorrection, hnil] using hhard
  · exact htrue.sat hleft

/-- A correction that spares a rejected position has to reject an earlier one that was kept. -/
theorem GrowthVerdicts.exists_earlier (hsat : Hereditary sat) (htrue : Truthful sat exchanges)
    (h : problem.GrowthVerdicts exchanges correction) (hother : problem.IsCorrection sat other)
    {position : Nat} (hmem : position ∈ correction.positions)
    (hnot : position ∉ other.positions) :
    ∃ earlier < position, earlier ∈ other.positions ∧ earlier ∉ correction.positions := by
  by_contra! hearlier
  have hincreasing :
      (correction.complement.filter (· < position) ++ [position]).Pairwise (· < ·) := by
    refine List.pairwise_append.mpr ⟨correction.complement_pairwise.filter _, by simp, ?_⟩
    intro x hx y hy
    rw [List.mem_singleton.mp hy]
    simpa using (List.mem_filter.mp hx).2
  refine htrue.unsat (h.against position hmem) (hsat (select_sublist ?_) hother)
  refine sublist_of_forall_mem hincreasing other.complement_pairwise fun x hx => ?_
  rcases List.mem_append.mp hx with hx | hx
  · obtain ⟨hcomplement, hlt⟩ := List.mem_filter.mp hx
    obtain ⟨hlength, hkept⟩ := Diagnosis.mem_complement.mp hcomplement
    refine Diagnosis.mem_complement.mpr ⟨hlength, fun hmem' => hkept ?_⟩
    exact hearlier x (by simpa using hlt) hmem'
  · rw [List.mem_singleton.mp hx]
    exact Diagnosis.mem_complement.mpr ⟨correction.lt_length position hmem, hnot⟩

theorem GrowthVerdicts.minimal (hsat : Hereditary sat) (htrue : Truthful sat exchanges)
    (hhard : sat problem.hard) (h : problem.GrowthVerdicts exchanges correction) :
    Minimal (problem.IsCorrection sat) correction := by
  refine ⟨h.isCorrection htrue hhard, fun other hother hle => ?_⟩
  by_contra hnot
  obtain ⟨position, hmem, hnotMem⟩ :
      ∃ position ∈ correction.positions, position ∉ other.positions := by
    simpa [Diagnosis.le_iff] using hnot
  obtain ⟨earlier, -, hin, hout⟩ := h.exists_earlier hsat htrue hother hmem hnotMem
  exact hout (hle earlier hin)

/-- Every other correction has the smallest position in which it differs from the one found. -/
theorem GrowthVerdicts.precedes (hsat : Hereditary sat) (htrue : Truthful sat exchanges)
    (h : problem.GrowthVerdicts exchanges correction) (hother : problem.IsCorrection sat other)
    (hne : other ≠ correction) : other.Precedes correction := by
  rcases Diagnosis.precedes_or_precedes hne with hprecedes | ⟨position, hmem, hnot, hbefore⟩
  · exact hprecedes
  · obtain ⟨earlier, hlt, hin, hout⟩ := h.exists_earlier hsat htrue hother hmem hnot
    exact absurd ((hbefore earlier hlt).mpr hin) hout

/-- Nothing is rejected if and only if all constraints hold together. -/
theorem GrowthVerdicts.positions_eq_nil_iff (hsat : Hereditary sat)
    (htrue : Truthful sat exchanges) (hhard : sat problem.hard)
    (h : problem.GrowthVerdicts exchanges correction) :
    correction.positions = [] ↔ sat (problem.hard ++ problem.soft) := by
  constructor
  · intro hnil
    exact (isCorrection_of_positions_eq_nil hnil).mp (h.isCorrection htrue hhard)
  · intro hall
    let nothing : Diagnosis problem.soft := ⟨[], .nil, by simp⟩
    have hnothing : problem.IsCorrection sat nothing :=
      (isCorrection_of_positions_eq_nil rfl).mpr hall
    refine List.eq_nil_iff_forall_not_mem.mpr fun position hmem => ?_
    obtain ⟨earlier, -, hin, -⟩ :=
      h.exists_earlier hsat htrue hnothing hmem (by simp [nothing])
    simp [nothing] at hin

end Truthful

/-- With an oracle that decides a hereditary predicate, growth refuses exactly the problems
whose constraints hold together, provided that the hard ones do. In all others it finds a minimal
correction, the last one of all in lexicographic order. -/
theorem correctionByGrowth_lexicographically_last (oracle : Oracle σ C A ι) (sat : List C → Prop)
    (horacle : oracle.Decides sat) (hsat : Hereditary sat) (problem : Problem C)
    (hsoft : problem.soft ≠ []) (hhard : sat problem.hard) (state : σ) :
    ((problem.correctionByGrowth false).result oracle state =
        .ok (.error (.invalidInput .satisfiable)) ↔ sat (problem.hard ++ problem.soft)) ∧
    (¬ sat (problem.hard ++ problem.soft) →
      ∃ correction, (problem.correctionByGrowth false).result oracle state =
          .ok (.ok correction) ∧
        Minimal (problem.IsCorrection sat) correction ∧
        ∀ other, problem.IsCorrection sat other → other ≠ correction →
          other.Precedes correction) := by
  have hP : problem.QuestionsSatisfy (Question.IsSolve (ι := ι)) :=
    fun positions _ _ => ⟨_, rfl⟩
  obtain ⟨result, exchanges, hresult, hyields, htrue, hfailed⟩ :=
    horacle.exists_result (hP.asks_correctionByGrowth false) state
  rw [hresult]
  rcases yields_correctionByGrowth hsoft hyields with
    ⟨error, rfl, hverify | herror⟩ | ⟨hverdict, rfl⟩ | ⟨-, correction, hverdicts, hend⟩
  · exact nomatch hverify
  · exact absurd herror (hfailed error)
  · exact absurd hhard (htrue.unsat hverdict)
  have hnil := hverdicts.positions_eq_nil_iff hsat htrue hhard
  rcases hend with ⟨hempty, rfl⟩ | ⟨hne, rfl⟩
  · exact ⟨by simp [hnil.mp hempty], fun hnot => absurd (hnil.mp hempty) hnot⟩
  · refine ⟨by simpa [hnil] using hne, fun _ => ?_⟩
    refine ⟨correction, rfl, hverdicts.minimal hsat htrue hhard, fun other hother hdiff => ?_⟩
    exact hverdicts.precedes hsat htrue hother hdiff

/-- A constraint in two conflicts is kept if it comes first, although it would do to reject it. -/
theorem correctionByGrowth_of_shared_conflict :
    let sat := fun atoms => Conflict.isConsistent [[0, 1], [0, 2]] (Ascending.ofList atoms)
    let problem : Problem Nat := { soft := [0, 1, 2], hard := [4] }
    let correction : Diagnosis problem.soft := ⟨[1, 2], by decide, by decide⟩
    (sat (problem.hard ++ problem.soft) = false ∧ sat problem.hard = true) ∧
      (problem.correctionByGrowth false).result (Oracle.ofPredicate sat) () =
        .ok (.ok correction) ∧
      Minimal (problem.IsCorrection (sat · = true)) correction ∧
      ∀ other, problem.IsCorrection (sat · = true) other → other ≠ correction →
        other.Precedes correction := by
  intro sat problem correction
  obtain ⟨found, hfound, hminimal, hlast⟩ :=
    (correctionByGrowth_lexicographically_last (Oracle.ofPredicate sat) (sat · = true)
      (Oracle.decides_ofPredicate sat) (Conflict.hereditary_isConsistent _) problem (by decide)
      (by decide) ()).2 (by decide)
  have hcorrection : (problem.correctionByGrowth false).result (Oracle.ofPredicate sat) () =
      .ok (.ok correction) := rfl
  obtain rfl : correction = found :=
    Except.ok.inj (Except.ok.inj (hcorrection.symm.trans hfound))
  exact ⟨by decide, hcorrection, hminimal, hlast⟩

end Infeasibility.Problem
