import Infeasibility.Conflict.Oracle
import Infeasibility.Proofs.Conflict.Encoding
import Infeasibility.Proofs.Diagnosis.Optimization
import Infeasibility.Proofs.Results

/-! # Questions about atoms

As long as it is not made to fail, the oracle of a table of conflicts has a verdict on all lists of
atoms, and an optimum for problems whose constraints are atoms. -/

namespace Infeasibility.Conflict

variable {table : Table} {atoms : List Nat}

/-! ## What constraints mean -/

theorem resolve_of_lt {atom : Nat} (h : atom < firstLink) : table.resolve atom = .ok (.atom atom) :=
  if_pos h

theorem resolve_link {position : Nat} {link : Link} (h : table.links[position]? = some link) :
    table.resolve (firstLink + position) = .ok (.link link) := by
  rw [Table.resolve, if_neg (Nat.not_lt.mpr (Nat.le_add_right _ _)), Nat.add_sub_cancel_left, h]

theorem mapM_resolve_atoms (h : ∀ atom ∈ atoms, atom < firstLink) :
    atoms.mapM table.resolve = .ok (atoms.map .atom) := by
  rw [mapM_eq_ok_iff, List.forall₂_map_right_iff, List.forall₂_same]
  exact fun atom hatom => resolve_of_lt (h atom hatom)

/-! ## Verdicts -/

theorem answering_of_failAt_ne {α : Type} (h : table.failAt ≠ some table.questions)
    (answer : Table → Except Misuse (Except OracleError α)) :
    Table.answering answer table =
      (answer table, { table with questions := table.questions + 1 }) :=
  if_neg h

theorem answering_of_failAt_eq_none {α : Type} (h : table.failAt = none)
    (answer : Table → Except Misuse (Except OracleError α)) :
    Table.answering answer table =
      (answer table, { table with questions := table.questions + 1 }) :=
  answering_of_failAt_ne (by simp [h]) answer

theorem forcedBy_atoms (indicators atoms : List Nat) :
    (World.forcedBy indicators (atoms.map .atom)).atoms = Ascending.ofList atoms := by
  have hforced :
      (atoms.map Proposition.atom).filterMap (Proposition.forced? indicators) = atoms := by
    rw [List.filterMap_map]
    exact List.filterMap_some
  rw [World.forcedBy, hforced]

theorem exists_verdict (h : ∀ atom ∈ atoms, atom < firstLink) :
    ∃ outcome, table.verdict atoms = .ok (.ok outcome) ∧
      (outcome.isSat ↔ Free table.conflicts atoms) := by
  have hresolve : atoms.mapM table.resolve = .ok (atoms.map .atom) := mapM_resolve_atoms h
  rw [Table.verdict, hresolve]
  by_cases hfree : Free table.conflicts atoms
  · have hconsistent := isConsistent_ofList_iff.mpr hfree
    refine ⟨.satisfiable (Ascending.ofList atoms), ?_, iff_of_true rfl hfree⟩
    simp [bind, Except.bind, forcedBy_atoms, hconsistent, pure, Except.pure]
  · have hconsistent := mt isConsistent_ofList_iff.mp hfree
    refine ⟨.unsatisfiable, ?_, iff_of_false Bool.false_ne_true hfree⟩
    simp [bind, Except.bind, forcedBy_atoms, hconsistent, pure, Except.pure]

/-- A table that is not made to fail decides whether atoms are free of its conflicts. -/
theorem decidesOn_atoms (conflicts : List (List Nat)) :
    oracle.DecidesOn (Free conflicts) (fun atoms => ∀ atom ∈ atoms, atom < firstLink)
      fun table => table.conflicts = conflicts ∧ table.failAt = none := by
  rintro atoms table hatoms ⟨rfl, hfail⟩
  obtain ⟨outcome, hverdict, hsat⟩ := exists_verdict hatoms
  refine ⟨outcome, { table with questions := table.questions + 1 }, ?_, ⟨rfl, hfail⟩, hsat⟩
  rw [← hverdict]
  exact answering_of_failAt_eq_none hfail fun table => table.verdict atoms

/-! ## Indicators and links -/

namespace Table

/-- The numbers of the next indicators. -/
def nextIndicators (table : Table) (count : Nat) : List Nat :=
  (List.range count).map fun k => (table.nextIndicator + UInt32.ofNat k).toNat

@[simp] theorem length_nextIndicators {count : Nat} :
    (table.nextIndicators count).length = count := by
  rw [nextIndicators, List.length_map, List.length_range]

theorem nextIndicator_addIndicator (k : Nat) :
    table.addIndicator.nextIndicator + UInt32.ofNat k =
      table.nextIndicator + UInt32.ofNat (k + 1) := by
  rw [addIndicator, UInt32.add_assoc, UInt32.add_comm 1, UInt32.ofNat_add]
  rfl

theorem nextIndicators_succ {count : Nat} : table.nextIndicators (count + 1) =
    table.nextIndicator.toNat :: table.addIndicator.nextIndicators count := by
  rw [nextIndicators, List.range_succ_eq_map, List.map_cons, List.map_map]
  congr 1
  · simp
  · exact List.map_congr_left fun k _ => congrArg UInt32.toNat (nextIndicator_addIndicator k).symm

/-- As many indicators as there are numbers are different from each other. -/
theorem nextIndicators_nodup {count : Nat} (h : count ≤ UInt32.size) :
    (table.nextIndicators count).Nodup := by
  refine List.nodup_range.map_on fun k hk l hl heq => ?_
  have hk' := Nat.lt_of_lt_of_le (List.mem_range.mp hk) h
  have hl' := Nat.lt_of_lt_of_le (List.mem_range.mp hl) h
  have hwords := UInt32.add_right_inj _ |>.mp (UInt32.toNat_inj.mp heq)
  have hvalues := congrArg UInt32.toNat hwords
  rwa [UInt32.toNat_ofNat_of_lt' hk', UInt32.toNat_ofNat_of_lt' hl'] at hvalues

/-- The table with some more indicators. -/
def withIndicators (table : Table) (count : Nat) : Table :=
  { table with
    nextIndicator := table.nextIndicator + UInt32.ofNat count
    live := (table.nextIndicators count).foldl
      (fun live indicator => Ascending.insert indicator live) table.live }

theorem withIndicators_zero : table.withIndicators 0 = table := by
  simp [withIndicators, nextIndicators]

theorem withIndicators_addIndicator {count : Nat} :
    table.addIndicator.withIndicators count = table.withIndicators (count + 1) := by
  rw [withIndicators, nextIndicator_addIndicator, withIndicators, nextIndicators_succ]
  rfl

/-- The table with some more links. -/
def withLinks (table : Table) (links : List Link) : Table :=
  { table with links := table.links ++ links }

end Table

/-- As many indicators as there are constraints, one after the other. -/
theorem run_newIndicators {ε : Type} (atoms : List Nat) (table : Table) :
    (atoms.mapM fun _ => (ExceptT.lift Dialogue.newIndicator :
      Inquiry Nat (List Nat) Nat ε Nat)).run.run oracle table =
      (.ok (.ok (table.nextIndicators atoms.length)), table.withIndicators atoms.length) := by
  induction atoms generalizing table with
  | nil =>
      rw [List.length_nil, Table.withIndicators_zero]
      rfl
  | cons atom atoms ih =>
      have hnew : (ExceptT.lift Dialogue.newIndicator :
          Inquiry Nat (List Nat) Nat ε Nat).run.run oracle table =
          (.ok (.ok table.nextIndicator.toNat), table.addIndicator) := rfl
      rw [List.mapM_cons, Inquiry.run_bind_of_ok hnew, Inquiry.run_bind_of_ok (ih _),
        Table.withIndicators_addIndicator, List.length_cons, Table.nextIndicators_succ]
      rfl

/-- Links are recorded one after the other, each under the next identifier. -/
theorem run_implications {ε : Type} (pairs : List (Nat × Nat)) (table : Table)
    (h : ∀ pair ∈ pairs, pair.2 < firstLink) :
    (pairs.mapM fun (indicator, atom) => (ExceptT.lift (Dialogue.implication indicator atom) :
      Inquiry Nat (List Nat) Nat ε Nat)).run.run oracle table =
      (.ok (.ok (List.range' (firstLink + table.links.length) pairs.length)),
        table.withLinks (pairs.map fun (indicator, atom) => ⟨indicator, atom⟩)) := by
  induction pairs generalizing table with
  | nil => simp [Table.withLinks]; rfl
  | cons pair pairs ih =>
      obtain ⟨hpair, hpairs⟩ := List.forall_mem_cons.mp h
      obtain ⟨indicator, atom⟩ := pair
      have hanswer : oracle.answer (.implication indicator atom) table =
          (.ok (firstLink + table.links.length), table.addLink ⟨indicator, atom⟩) :=
        if_pos hpair
      have hlink : (ExceptT.lift (Dialogue.implication indicator atom) :
          Inquiry Nat (List Nat) Nat ε Nat).run.run oracle table =
          (.ok (.ok (firstLink + table.links.length)), table.addLink ⟨indicator, atom⟩) :=
        Inquiry.run_lift_of_ok (Dialogue.run_ask_of_ok hanswer)
      rw [List.mapM_cons, Inquiry.run_bind_of_ok hlink, Inquiry.run_bind_of_ok (ih _ hpairs)]
      simp [Table.withLinks, Table.addLink, List.range'_succ, Nat.add_assoc]
      rfl

theorem mapM_resolve_links (table : Table) (links : List Link) :
    (List.range' (firstLink + table.links.length) links.length).mapM
      (table.withLinks links).resolve = .ok (links.map .link) := by
  rw [mapM_eq_ok_iff, List.forall₂_iff_get]
  refine ⟨by simp, fun position hposition hlink => ?_⟩
  have hlt : position < links.length := by simpa using hlink
  have hget : (table.withLinks links).links[table.links.length + position]? =
      some links[position] := by
    simp [Table.withLinks, hlt]
  simpa [Nat.add_assoc] using resolve_link hget

/-! ## Optima -/

/-- Neither the number of terms nor their kind is in the way of an optimum. -/
theorem optimize_eq_ok {hard : List Nat} {soft : List (SoftTerm Nat Nat)}
    {propositions : List Proposition} {terms : List (SoftTerm Proposition Nat)}
    (hlength : soft.length ≤ maxSoftTerms)
    (haccepted : table.softConstraints = true ∨ soft.filterMap constraint? = [])
    (hhard : hard.mapM table.resolve = .ok propositions)
    (hsoft : soft.mapM table.resolveTerm = .ok terms) :
    table.optimize hard soft = .ok (.ok (optimum table.conflicts propositions terms)) := by
  have hrefused : (!table.softConstraints && !(soft.filterMap constraint?).isEmpty) = false := by
    rcases haccepted with haccepted | haccepted <;> simp [haccepted]
  rw [Table.optimize, if_neg (Nat.not_lt.mpr hlength), hrefused, hhard, hsoft]
  rfl

variable {problem : Problem Nat}

theorem maximize_atoms (hfail : table.failAt = none) (hsupported : table.softConstraints = true)
    (hlength : problem.soft.length ≤ maxSoftTerms)
    (hatoms : ∀ atom ∈ problem.hard ++ problem.soft, atom < firstLink) :
    oracle.maximize problem.hard (problem.soft.map .constraint) table =
      (.ok (.ok (optimum table.conflicts (problem.hard.map .atom)
        (problem.soft.map fun atom => .constraint (.atom atom)))),
        { table with questions := table.questions + 1 }) := by
  obtain ⟨hhard, hsoft⟩ := List.forall_mem_append.mp hatoms
  have hterms : (problem.soft.map SoftTerm.constraint).mapM table.resolveTerm =
      .ok (problem.soft.map fun atom => .constraint (.atom atom)) := by
    rw [mapM_eq_ok_iff, List.forall₂_map_left_iff, List.forall₂_map_right_iff, List.forall₂_same]
    intro atom hatom
    rw [Table.resolveTerm, resolve_of_lt (hsoft atom hatom)]
    rfl
  rw [← optimize_eq_ok (by simpa using hlength) (.inl hsupported) (mapM_resolve_atoms hhard) hterms]
  exact answering_of_failAt_eq_none hfail fun table =>
    table.optimize problem.hard (problem.soft.map .constraint)

/-- The state in which the indicators of a problem are maximized. -/
def Table.linked (table : Table) (problem : Problem Nat) : Table :=
  (table.withIndicators problem.soft.length).withLinks
    (linksTo (table.nextIndicators problem.soft.length) problem.soft)

/-- What the hard constraints of a problem mean, and the links to its soft ones. -/
def Table.linkedHard (table : Table) (problem : Problem Nat) : List Proposition :=
  problem.hard.map .atom ++
    (linksTo (table.nextIndicators problem.soft.length) problem.soft).map .link

/-- The indicators of a problem as soft terms. -/
def Table.linkedTerms (table : Table) (problem : Problem Nat) :
    List (SoftTerm Proposition Nat) :=
  (table.nextIndicators problem.soft.length).map .indicator

theorem maximize_links (hfail : table.failAt = none)
    (hlength : problem.soft.length ≤ maxSoftTerms)
    (hatoms : ∀ atom ∈ problem.hard, atom < firstLink) :
    oracle.maximize
        (problem.hard ++ List.range' (firstLink + table.links.length) problem.soft.length)
        ((table.nextIndicators problem.soft.length).map .indicator)
        (table.linked problem) =
      (.ok (.ok (optimum table.conflicts (table.linkedHard problem) (table.linkedTerms problem))),
        { table.linked problem with questions := table.questions + 1 }) := by
  have hhard : (problem.hard ++
      List.range' (firstLink + table.links.length) problem.soft.length).mapM
      (table.linked problem).resolve = .ok (table.linkedHard problem) := by
    have hlinks := mapM_resolve_links (table.withIndicators problem.soft.length)
      (linksTo (table.nextIndicators problem.soft.length) problem.soft)
    rw [length_linksTo Table.length_nextIndicators] at hlinks
    refine mapM_eq_ok_iff.mpr (List.rel_append ?_ (mapM_eq_ok_iff.mp hlinks))
    exact mapM_eq_ok_iff.mp (mapM_resolve_atoms hatoms)
  have hterms : ((table.nextIndicators problem.soft.length).map
      SoftTerm.indicator).mapM (table.linked problem).resolveTerm =
        .ok (table.linkedTerms problem) := by
    rw [mapM_eq_ok_iff, Table.linkedTerms, List.forall₂_map_left_iff, List.forall₂_map_right_iff,
      List.forall₂_same]
    exact fun _ _ => rfl
  have hnone : ((table.nextIndicators problem.soft.length).map
      (SoftTerm.indicator (C := Nat))).filterMap constraint? = [] := by
    simp [constraint?]
  have hoptimum := optimize_eq_ok (by simpa using hlength) (.inr hnone) hhard hterms
  rw [show table.conflicts = (table.linked problem).conflicts from rfl, ← hoptimum]
  have hfail' : (table.linked problem).failAt = none := hfail
  exact answering_of_failAt_eq_none hfail' fun linked => linked.optimize
    (problem.hard ++ List.range' (firstLink + table.links.length) problem.soft.length)
    ((table.nextIndicators problem.soft.length).map .indicator)

/-- The links to the soft constraints of a problem are recorded behind the others. -/
theorem run_implications_linksTo (hatoms : ∀ atom ∈ problem.soft, atom < firstLink) :
    (((table.nextIndicators problem.soft.length).zip problem.soft).mapM
      fun (indicator, atom) => (ExceptT.lift (Dialogue.implication indicator atom) :
        Inquiry Nat (List Nat) Nat OracleError Nat)).run.run oracle
          (table.withIndicators problem.soft.length) =
      (.ok (.ok (List.range' (firstLink + table.links.length) problem.soft.length)),
        table.linked problem) := by
  have hlinked := run_implications (ε := OracleError)
    ((table.nextIndicators problem.soft.length).zip problem.soft)
    (table.withIndicators problem.soft.length)
    (fun pair hpair => hatoms pair.2 (List.of_mem_zip hpair).2)
  have hcount : ((table.nextIndicators problem.soft.length).zip problem.soft).length =
      problem.soft.length := by
    simp
  rwa [hcount] at hlinked

theorem run_maximizeIndicators (hfail : table.failAt = none)
    (hlength : problem.soft.length ≤ maxSoftTerms)
    (hatoms : ∀ atom ∈ problem.hard ++ problem.soft, atom < firstLink) :
    problem.maximizeIndicators.run.run oracle table =
      (.ok (.ok (optimum table.conflicts (table.linkedHard problem) (table.linkedTerms problem))),
        ({ table.linked problem with questions := table.questions + 1 }).release
          (table.nextIndicators problem.soft.length)) := by
  obtain ⟨hhard, hsoft⟩ := List.forall_mem_append.mp hatoms
  exact Problem.run_maximizeIndicators (run_newIndicators _ _) (run_implications_linksTo hsoft)
    (maximize_links hfail hlength hhard) rfl

/-- The numbers of all indicators of a problem within the limit are different. -/
theorem represents_nextIndicators (table : Table) (hlength : problem.soft.length ≤ maxSoftTerms) :
    Represents table.conflicts problem (table.linkedHard problem) (table.linkedTerms problem) := by
  have hsize : maxSoftTerms ≤ UInt32.size := by decide
  exact represents_links _ (Table.nextIndicators_nodup (hlength.trans hsize))
    Table.length_nextIndicators

/-! ## Too many soft terms -/

theorem maximize_of_lt (hard : List Nat) {soft : List (SoftTerm Nat Nat)}
    (hfail : table.failAt = none) (hlength : maxSoftTerms < soft.length) :
    oracle.maximize hard soft table =
      (.ok (.error (.resourceLimit s!"{soft.length} soft terms")),
        { table with questions := table.questions + 1 }) := by
  have hrefused : table.optimize hard soft =
      .ok (.error (.resourceLimit s!"{soft.length} soft terms")) := by
    rw [Table.optimize, if_pos hlength]
    rfl
  rw [← hrefused]
  exact answering_of_failAt_eq_none hfail fun table => table.optimize hard soft

/-- The indicators are released as well if there are too many of them. -/
theorem run_maximizeIndicators_of_lt (hfail : table.failAt = none)
    (hlength : maxSoftTerms < problem.soft.length)
    (hatoms : ∀ atom ∈ problem.soft, atom < firstLink) :
    problem.maximizeIndicators.run.run oracle table =
      (.ok (.error (.resourceLimit s!"{problem.soft.length} soft terms")),
        ({ table.linked problem with questions := table.questions + 1 }).release
          (table.nextIndicators problem.soft.length)) := by
  have hfail' : (table.linked problem).failAt = none := hfail
  have hterms : maxSoftTerms < ((table.nextIndicators problem.soft.length).map
      (SoftTerm.indicator (C := Nat))).length := by
    simpa using hlength
  have hmaximize := maximize_of_lt
    (problem.hard ++ List.range' (firstLink + table.links.length) problem.soft.length) hfail' hterms
  rw [List.length_map, Table.length_nextIndicators] at hmaximize
  exact Problem.run_maximizeIndicators (run_newIndicators _ _) (run_implications_linksTo hatoms)
    hmaximize rfl

end Infeasibility.Conflict
