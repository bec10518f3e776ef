import Infeasibility.Diagnosis.Core
import Infeasibility.Proofs.Conflict.Consistency
import Infeasibility.Proofs.Diagnosis.Protocol

/-! # Correctness of deletion

Deletion keeps a position only after a verdict that the constraints hold together without it,
when everything behind it was still there. These verdicts single out one core among all. -/

namespace Infeasibility.Problem

variable {σ C A ι : Type} {problem : Problem C}

/-! ## The deletion loop -/

/-- The verdicts that the loop rests on when it keeps `kept` of the pending positions. For each
of them there is one on all that was still there without it, and unless everything is kept there
is one on what is left. -/
structure ShrinkVerdicts (problem : Problem C) (exchanges : List (Exchange C A ι))
    (needed pending kept : List Nat) : Prop where
  sublist : kept.Sublist pending
  without : ∀ position ∈ kept, Answered exchanges (problem.select
    (needed ++ kept.filter (· < position) ++ pending.filter (position < ·))) true
  left : kept = pending ∨ Answered exchanges (problem.select (needed ++ kept)) false

theorem ShrinkVerdicts.keep {needed pending kept : List Nat} {position : Nat}
    {first second : List (Exchange C A ι)} (hlt : ∀ other ∈ pending, position < other)
    (hverdict : Answered first (problem.select (needed ++ pending)) true)
    (h : problem.ShrinkVerdicts second (needed ++ [position]) pending kept) :
    problem.ShrinkVerdicts (first ++ second) needed (position :: pending)
      (position :: kept) := by
  refine ⟨h.sublist.cons_cons position, ?_, ?_⟩
  · intro other hother
    rcases List.mem_cons.mp hother with rfl | hother
    · -- Nothing that stays stands before this position, and everything pending is behind it.
      have hbefore : (other :: kept).filter (· < other) = [] := by
        refine List.filter_eq_nil_iff.mpr fun x hx => ?_
        rcases List.mem_cons.mp hx with rfl | hx
        · simp
        · simpa using (hlt x (h.sublist.subset hx)).le
      have hbehind : (other :: pending).filter (other < ·) = pending := by
        rw [List.filter_cons_of_neg (by simp)]
        exact List.filter_eq_self.mpr fun x hx => by simpa using hlt x hx
      rw [hbefore, hbehind, List.append_nil]
      exact hverdict.append_right
    · have hpos := hlt other (h.sublist.subset hother)
      have hanswer : Answered (first ++ second) _ true :=
        (h.without other hother).append_left
      rw [List.filter_cons_of_pos (by simpa using hpos),
        List.filter_cons_of_neg (by simpa using hpos.le)]
      simpa using hanswer
  · rcases h.left with rfl | hleft
    · exact .inl rfl
    · have hanswer : Answered (first ++ second) _ false := hleft.append_left
      exact .inr (by simpa using hanswer)

theorem ShrinkVerdicts.drop {needed pending kept : List Nat} {position : Nat}
    {first second : List (Exchange C A ι)} (hlt : ∀ other ∈ pending, position < other)
    (hverdict : Answered first (problem.select (needed ++ pending)) false)
    (h : problem.ShrinkVerdicts second needed pending kept) :
    problem.ShrinkVerdicts (first ++ second) needed (position :: pending) kept := by
  refine ⟨h.sublist.cons position, ?_, .inr ?_⟩
  · intro other hother
    have hpos := hlt other (h.sublist.subset hother)
    rw [List.filter_cons_of_neg (by simpa using hpos.le)]
    exact (h.without other hother).append_left
  · rcases h.left with rfl | hleft
    · exact hverdict.append_right
    · exact hleft.append_left

theorem ShrinkVerdicts.append_left {needed pending kept : List Nat}
    {first second : List (Exchange C A ι)}
    (h : problem.ShrinkVerdicts second needed pending kept) :
    problem.ShrinkVerdicts (first ++ second) needed pending kept :=
  ⟨h.sublist, fun position hmem => (h.without position hmem).append_left,
    h.left.imp_right Answered.append_left⟩

theorem yields_shrink {needed pending : List Nat} {exchanges : List (Exchange C A ι)}
    {core : List Nat} (hneeded : ∀ position ∈ needed, position < problem.soft.length)
    (hpending : ∀ position ∈ pending, position < problem.soft.length)
    (hincreasing : pending.Pairwise (· < ·))
    (h : (problem.shrink needed pending).run.Yields exchanges (.ok core)) :
    ∃ kept, core = needed ++ kept ∧ problem.ShrinkVerdicts exchanges needed pending kept := by
  induction pending generalizing needed exchanges with
  | nil =>
      obtain ⟨rfl, hcore⟩ := Dialogue.yields_done_iff.mp h
      cases hcore
      exact ⟨[], by simp, .slnil, by simp, .inl rfl⟩
  | cons position pending ih =>
      obtain ⟨hposition, hpending⟩ := List.forall_mem_cons.mp hpending
      obtain ⟨hlt, hincreasing⟩ := List.pairwise_cons.mp hincreasing
      obtain ⟨first, second, outcome, rfl, hask, hrest⟩ := Inquiry.yields_bind_ok_iff.mp h
      have hverdict := answered_of_yields_ask (List.forall_mem_append.mpr ⟨hneeded, hpending⟩) hask
      cases hsat : outcome.isSat with
      | true =>
          rw [hsat] at hverdict hrest
          have hneeded' : ∀ other ∈ needed ++ [position], other < problem.soft.length :=
            List.forall_mem_append.mpr ⟨hneeded, by simpa using hposition⟩
          obtain ⟨kept, hcore, hkept⟩ := ih hneeded' hpending hincreasing hrest
          exact ⟨position :: kept, by simpa using hcore, hkept.keep hlt hverdict⟩
      | false =>
          rw [hsat] at hverdict hrest
          obtain ⟨kept, hcore, hkept⟩ := ih hneeded hpending hincreasing hrest
          exact ⟨kept, hcore, hkept.drop hlt hverdict⟩

/-- The loop has no errors of its own. -/
theorem isTransparent_shrink (problem : Problem C) (needed pending : List Nat) :
    (problem.shrink needed pending : Inquiry C A ι OracleError (List Nat)).IsTransparent := by
  induction pending generalizing needed with
  | nil => exact Inquiry.passesOn_pure needed
  | cons position pending ih =>
      refine (problem.isTransparent_ask _).bind fun _ outcome _ => ?_
      split
      · exact ih (needed ++ [position])
      · exact ih needed

theorem QuestionsSatisfy.asks_shrink {P : Question C ι → Prop} (hP : problem.QuestionsSatisfy P)
    {needed pending : List Nat} (hincreasing : (needed ++ pending).Pairwise (· < ·))
    (hlt : ∀ position ∈ needed ++ pending, position < problem.soft.length) :
    (problem.shrink needed pending : Inquiry C A ι OracleError (List Nat)).run.Asks P := by
  induction pending generalizing needed with
  | nil => exact Dialogue.asks_done P _
  | cons position pending ih =>
      have hsublist : (needed ++ pending).Sublist (needed ++ position :: pending) :=
        (List.Sublist.refl needed).append (List.sublist_cons_self position pending)
      have hincreasing' := hincreasing.sublist hsublist
      have hlt' : ∀ other ∈ needed ++ pending, other < problem.soft.length :=
        fun other hmem => hlt other (hsublist.subset hmem)
      refine Inquiry.asks_bind (hP.asks_ask hincreasing' hlt') fun _ outcome _ => ?_
      split
      · exact ih (by simpa using hincreasing) (by simpa using hlt)
      · exact ih hincreasing' hlt'

/-! ## What deletion rests on -/

/-- The verdicts that an outcome of deletion rests on. -/
structure DeletionVerdicts (problem : Problem C) (exchanges : List (Exchange C A ι))
    (core : List Nat) : Prop where
  increasing : core.Pairwise (· < ·)
  lt_length : ∀ position ∈ core, position < problem.soft.length
  all : Answered exchanges (problem.hard ++ problem.soft) false
  unsat : Answered exchanges (problem.select core) false
  needed : ∀ position ∈ core, Answered exchanges (problem.select
    (core.filter (· < position) ++
      (List.range problem.soft.length).filter (position < ·))) true

theorem DeletionVerdicts.append_right {first second : List (Exchange C A ι)} {core : List Nat}
    (h : problem.DeletionVerdicts first core) :
    problem.DeletionVerdicts (first ++ second) core :=
  ⟨h.increasing, h.lt_length, h.all.append_right, h.unsat.append_right,
    fun position hmem => (h.needed position hmem).append_right⟩

/-- The positions of the core below some position and all positions behind it are in order. -/
theorem DeletionVerdicts.pairwise_around {exchanges : List (Exchange C A ι)} {core : List Nat}
    (h : problem.DeletionVerdicts exchanges core) (position : Nat) :
    (core.filter (· < position) ++
      (List.range problem.soft.length).filter (position < ·)).Pairwise (· < ·) := by
  refine List.pairwise_append.mpr ⟨h.increasing.filter _, List.pairwise_lt_range.filter _, ?_⟩
  intro x hx y hy
  have hxlt : x < position := by simpa using (List.mem_filter.mp hx).2
  have hylt : position < y := by simpa using (List.mem_filter.mp hy).2
  exact hxlt.trans hylt

/-- What the loop leaves of all positions rests on the verdicts of a deletion. -/
theorem deletionVerdicts_of_yields {exchanges : List (Exchange C A ι)} {core : List Nat}
    (hall : Answered exchanges (problem.hard ++ problem.soft) false)
    (h : problem.ShrinkVerdicts exchanges [] (List.range problem.soft.length) core) :
    problem.DeletionVerdicts exchanges core := by
  refine ⟨List.pairwise_lt_range.sublist h.sublist, ?_, hall, ?_, h.without⟩
  · intro position hmem
    exact List.mem_range.mp (h.sublist.subset hmem)
  · rcases h.left with rfl | hleft
    · rwa [select_range]
    · exact hleft

/-- How a search for a minimal core can end. -/
theorem yields_minimalCore {verify : Bool} {exchanges : List (Exchange C A ι)}
    {result : Except DiagnosisError (Diagnosis problem.soft)} (hsoft : problem.soft ≠ [])
    (h : (problem.minimalCore verify).run.Yields exchanges result) :
    (∃ error, result = .error (.unavailable error) ∧ (verify = true ∨ Failed exchanges error)) ∨
    (Answered exchanges (problem.hard ++ problem.soft) true ∧
      result = .error (.invalidInput .satisfiable)) ∨
    (problem.DeletionVerdicts exchanges [] ∧
      result = .error (.invalidInput .hardUnsatisfiable)) ∨
    ∃ core : Diagnosis problem.soft, core.positions ≠ [] ∧
      problem.DeletionVerdicts exchanges core.positions ∧ result = .ok core := by
  have hrange : ∀ position ∈ List.range problem.soft.length, position < problem.soft.length :=
    fun position hmem => List.mem_range.mp hmem
  rw [minimalCore, requireSoft_of_ne_nil hsoft, pure_bind] at h
  rcases Inquiry.yields_bind_iff.mp h with
    ⟨error, hask, rfl⟩ | ⟨first, rest, outcome, rfl, hask, h⟩
  · obtain ⟨cause, rfl, hfail⟩ := Inquiry.yields_orUnavailable_error_iff.mp hask
    exact .inl ⟨cause, rfl, .inr (failed_of_yields_ask hrange hfail)⟩
  have hverdict :=
    answered_of_yields_ask hrange (Inquiry.yields_orUnavailable_ok_iff.mp hask)
  rw [select_range] at hverdict
  cases hsat : outcome.isSat with
  | true =>
      rw [hsat] at hverdict h
      obtain ⟨rfl, rfl⟩ := Dialogue.yields_done_iff.mp h
      exact .inr (.inl ⟨hverdict.append_right, rfl⟩)
  | false =>
      rw [hsat] at hverdict h
      rcases Inquiry.yields_bind_iff.mp h with
        ⟨error, hshrink, rfl⟩ | ⟨second, third, core, rfl, hshrink, h⟩
      · obtain ⟨cause, rfl, hfail⟩ := Inquiry.yields_orUnavailable_error_iff.mp hshrink
        have hfailed : Failed rest cause := (problem.isTransparent_shrink _ _).failed
          (problem.questionsSatisfy_isSolve.asks_shrink List.pairwise_lt_range hrange) hfail
        exact .inl ⟨cause, rfl, .inr hfailed.append_left⟩
      · obtain ⟨kept, hcore, hkept⟩ := yields_shrink (by simp) hrange List.pairwise_lt_range
          (Inquiry.yields_orUnavailable_ok_iff.mp hshrink)
        obtain rfl : core = kept := by simpa using hcore
        have hverdicts : problem.DeletionVerdicts (first ++ second) core :=
          deletionVerdicts_of_yields hverdict.append_right hkept.append_left
        rw [← List.append_assoc]
        split at h
        · rename_i hempty
          obtain rfl := List.isEmpty_iff.mp hempty
          obtain ⟨-, rfl⟩ := Dialogue.yields_done_iff.mp h
          exact .inr (.inr (.inl ⟨hverdicts.append_right, rfl⟩))
        · rename_i hempty
          rcases yields_conclude h with ⟨core, rfl, rfl⟩ | ⟨hverify, error, rfl⟩
          · exact .inr (.inr (.inr ⟨core, by simpa using hempty, hverdicts.append_right, rfl⟩))
          · exact .inl ⟨error, rfl, .inl hverify⟩

theorem QuestionsSatisfy.asks_minimalCore {P : Question C ι → Prop}
    (hP : problem.QuestionsSatisfy P) (verify : Bool) :
    (problem.minimalCore verify :
      Inquiry C A ι DiagnosisError (Diagnosis problem.soft)).run.Asks P := by
  have hrange : ∀ position ∈ List.range problem.soft.length, position < problem.soft.length :=
    fun position hmem => List.mem_range.mp hmem
  rw [minimalCore]
  refine Inquiry.asks_bind asks_requireSoft fun _ _ _ => ?_
  refine Inquiry.asks_bind
    (Inquiry.asks_orUnavailable (hP.asks_ask List.pairwise_lt_range hrange)) fun _ outcome _ => ?_
  split
  · exact Dialogue.asks_done P _
  refine Inquiry.asks_bind (Inquiry.asks_orUnavailable
    (hP.asks_shrink List.pairwise_lt_range hrange)) fun exchanges core hcore => ?_
  split
  · exact Dialogue.asks_done P _
  obtain ⟨kept, hkept, hverdicts⟩ := yields_shrink (by simp) hrange List.pairwise_lt_range
    (Inquiry.yields_orUnavailable_ok_iff.mp hcore)
  obtain rfl : core = kept := by simpa using hkept
  refine hP.asks_conclude verify .core (List.pairwise_lt_range.sublist hverdicts.sublist) ?_
  exact fun position hmem => hrange position (hverdicts.sublist.subset hmem)

/-! ## The core that deletion finds -/

section Truthful

variable {sat : List C → Prop} {exchanges : List (Exchange C A ι)}

/-- Constraints that lack a needed position, and agree with the core before it, were all there
when the position was found to be needed. -/
theorem DeletionVerdicts.sat_of_notMem (hsat : Hereditary sat) (htrue : Truthful sat exchanges)
    {core : List Nat} (h : problem.DeletionVerdicts exchanges core)
    {other : Diagnosis problem.soft} {position : Nat} (hmem : position ∈ core)
    (hnot : position ∉ other.positions)
    (hbefore : ∀ earlier < position, earlier ∈ other.positions → earlier ∈ core) :
    sat (problem.select other.positions) := by
  refine hsat (select_sublist ?_) (htrue.sat (h.needed position hmem))
  refine sublist_of_forall_mem other.increasing (h.pairwise_around position) fun x hx => ?_
  rcases Nat.lt_trichotomy x position with hlt | rfl | hgt
  · exact List.mem_append_left _ (List.mem_filter.mpr ⟨hbefore x hlt hx, by simpa using hlt⟩)
  · exact absurd hx hnot
  · refine List.mem_append_right _ (List.mem_filter.mpr ⟨?_, by simpa using hgt⟩)
    exact List.mem_range.mpr (other.lt_length x hx)

theorem DeletionVerdicts.minimal (hsat : Hereditary sat) (htrue : Truthful sat exchanges)
    {core : Diagnosis problem.soft} (h : problem.DeletionVerdicts exchanges core.positions) :
    Minimal (problem.IsCore sat) core := by
  refine ⟨htrue.unsat h.unsat, fun other hother hle => ?_⟩
  by_contra hnot
  obtain ⟨position, hmem, hnotMem⟩ : ∃ position ∈ core.positions, position ∉ other.positions := by
    simpa [Diagnosis.le_iff] using hnot
  refine hother (h.sat_of_notMem hsat htrue hmem hnotMem ?_)
  exact fun earlier _ hearlier => hle earlier hearlier

/-- Every other core has the smallest position in which it differs from the one found. -/
theorem DeletionVerdicts.precedes (hsat : Hereditary sat) (htrue : Truthful sat exchanges)
    {core other : Diagnosis problem.soft} (h : problem.DeletionVerdicts exchanges core.positions)
    (hother : problem.IsCore sat other) (hne : other ≠ core) : other.Precedes core := by
  rcases Diagnosis.precedes_or_precedes hne with hprecedes | ⟨position, hmem, hnot, hbefore⟩
  · exact hprecedes
  · refine absurd (h.sat_of_notMem hsat htrue hmem hnot ?_) hother
    exact fun earlier hlt hearlier => (hbefore earlier hlt).mpr hearlier

theorem DeletionVerdicts.not_sat (hsat : Hereditary sat) (htrue : Truthful sat exchanges)
    {core : List Nat} (h : problem.DeletionVerdicts exchanges core) :
    ¬ sat (problem.hard ++ problem.soft) := by
  intro hall
  rw [← select_range] at hall
  refine htrue.unsat h.unsat (hsat (select_sublist ?_) hall)
  refine sublist_of_forall_mem h.increasing List.pairwise_lt_range fun position hmem => ?_
  exact List.mem_range.mpr (h.lt_length position hmem)

/-- The hard constraints are to blame if and only if nothing is left. -/
theorem DeletionVerdicts.sat_hard_iff (hsat : Hereditary sat) (htrue : Truthful sat exchanges)
    {core : List Nat} (h : problem.DeletionVerdicts exchanges core) :
    sat problem.hard ↔ core ≠ [] := by
  constructor
  · rintro hhard rfl
    exact htrue.unsat h.unsat (by simpa using hhard)
  · intro hne
    obtain ⟨position, hmem⟩ := List.exists_mem_of_ne_nil core hne
    exact hsat (List.sublist_append_left _ _) (htrue.sat (h.needed position hmem))

end Truthful

/-- With an oracle that decides a hereditary predicate, deletion refuses exactly the problems
without a core and those whose hard constraints are a core by themselves. In all others it finds
a minimal core, the last one of all in lexicographic order. -/
theorem minimalCore_lexicographically_last (oracle : Oracle σ C A ι) (sat : List C → Prop)
    (horacle : oracle.Decides sat) (hsat : Hereditary sat) (problem : Problem C)
    (hsoft : problem.soft ≠ []) (state : σ) :
    ((problem.minimalCore false).result oracle state = .ok (.error (.invalidInput .satisfiable)) ↔
      sat (problem.hard ++ problem.soft)) ∧
    ((problem.minimalCore false).result oracle state =
        .ok (.error (.invalidInput .hardUnsatisfiable)) ↔ ¬ sat problem.hard) ∧
    (¬ sat (problem.hard ++ problem.soft) → sat problem.hard →
      ∃ core, (problem.minimalCore false).result oracle state = .ok (.ok core) ∧
        Minimal (problem.IsCore sat) core ∧
        ∀ other, problem.IsCore sat other → other ≠ core → other.Precedes core) := by
  have hP : problem.QuestionsSatisfy (Question.IsSolve (ι := ι)) :=
    fun positions _ _ => ⟨_, rfl⟩
  have hhard : sat (problem.hard ++ problem.soft) → sat problem.hard :=
    fun h => hsat (List.sublist_append_left _ _) h
  obtain ⟨result, exchanges, hresult, hyields, htrue, hfailed⟩ :=
    horacle.exists_result (hP.asks_minimalCore false) state
  rw [hresult]
  rcases yields_minimalCore hsoft hyields with
    ⟨error, rfl, hverify | herror⟩ | ⟨hall, rfl⟩ | ⟨hverdicts, rfl⟩ | ⟨core, hne, hverdicts, rfl⟩
  · exact nomatch hverify
  · exact absurd herror (hfailed error)
  · have hall := htrue.sat hall
    exact ⟨by simp [hall], by simp [hhard hall], fun hnot => absurd hall hnot⟩
  · have hnot : ¬ sat problem.hard := by simp [hverdicts.sat_hard_iff hsat htrue]
    exact ⟨by simp [hverdicts.not_sat hsat htrue], by simp [hnot], fun _ h => absurd h hnot⟩
  · have hyes : sat problem.hard := (hverdicts.sat_hard_iff hsat htrue).mpr hne
    refine ⟨by simp [hverdicts.not_sat hsat htrue], by simp [hyes], fun _ _ => ?_⟩
    refine ⟨core, rfl, hverdicts.minimal hsat htrue, fun other hother hdiff => ?_⟩
    exact hverdicts.precedes hsat htrue hother hdiff

/-- Of two disjoint conflicts the later one is the core. -/
theorem minimalCore_of_disjoint_conflicts :
    let sat := fun atoms => Conflict.isConsistent [[0, 1], [2, 3]] (Ascending.ofList atoms)
    let problem : Problem Nat := { soft := [0, 1, 2, 3], hard := [4] }
    let core : Diagnosis problem.soft := ⟨[2, 3], by decide, by decide⟩
    (sat (problem.hard ++ problem.soft) = false ∧ sat problem.hard = true) ∧
      (problem.minimalCore false).result (Oracle.ofPredicate sat) () = .ok (.ok core) ∧
      Minimal (problem.IsCore (sat · = true)) core ∧
      ∀ other, problem.IsCore (sat · = true) other → other ≠ core → other.Precedes core := by
  intro sat problem core
  obtain ⟨found, hfound, hminimal, hlast⟩ :=
    (minimalCore_lexicographically_last (Oracle.ofPredicate sat) (sat · = true)
      (Oracle.decides_ofPredicate sat) (Conflict.hereditary_isConsistent _) problem (by decide)
      ()).2.2 (by decide) (by decide)
  have hcore : (problem.minimalCore false).result (Oracle.ofPredicate sat) () = .ok (.ok core) :=
    rfl
  obtain rfl : core = found := Except.ok.inj (Except.ok.inj (hcore.symm.trans hfound))
  exact ⟨by decide, hcore, hminimal, hlast⟩

end Infeasibility.Problem
