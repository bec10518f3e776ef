import Infeasibility.CommandLine
import Infeasibility.Proofs.FiniteDomain.History
import Infeasibility.Proofs.FiniteDomain.Isolation
import Infeasibility.Proofs.FiniteDomain.Remainder

/-! # What is reported

A report on a lesson that keeps to the variables of its model always comes to its end. Each method
adds its lines to the text and leaves the solver as it was found, so that the next method, and the
question for a solution, start from a new solver. -/

namespace Infeasibility

open FiniteDomain

/-! ## Texts -/

namespace Report

variable {α β ε : Type} {solver : Solver} {added first second : String}

/-- A line with a heading in a column of its own. -/
def row (heading text : String) : String :=
  heading ++ String.ofList (List.replicate (12 - heading.length) ' ') ++ " " ++ text ++ "\n"

/-- The report ends with a value. It adds a text, and leaves the solver as it was. -/
def Writes (solver : Solver) (report : Report α) (added : String) (value : α) : Prop :=
  ∀ text, (report.run.run text).run oracle solver = (.ok (.ok value, text ++ added), solver)

theorem writes_pure (value : α) : Writes solver (pure value) "" value := by
  intro text
  rw [String.append_empty]
  rfl

theorem Writes.bind {x : Report α} {f : α → Report β} {value : α} {result : β}
    (hx : Writes solver x first value) (hf : Writes solver (f value) second result) :
    Writes solver (x >>= f) (first ++ second) result := by
  intro text
  rw [ExceptT.run_bind, StateT.run_bind, Dialogue.run_bind, Step.bind_apply, hx text,
    ← String.append_assoc]
  exact hf (text ++ first)

/-- A report may do something first that adds nothing to the text. -/
theorem Writes.andThen {x : Report α} {f : α → Report β} {value : α} {result : β}
    (hx : Writes solver x "" value) (hf : Writes solver (f value) added result) :
    Writes solver (x >>= f) added result := by
  simpa using hx.bind hf

theorem Writes.bind_pure {x : Report α} {g : α → β} {value : α} (hx : Writes solver x added value) :
    Writes solver (x >>= fun result => pure (g result)) added (g value) := by
  simpa using hx.bind (f := fun result => pure (g result)) (writes_pure (g value))

theorem writes_line (text : String) : Writes solver (line text) (text ++ "\n") () := by
  intro report
  rw [← String.append_assoc]
  rfl

theorem writes_entry (heading text : String) :
    Writes solver (entry heading text) (row heading text) () :=
  writes_line _

theorem writes_attempt {inquiry : Inquiry Constraint Assignment Var ε α} {result : Except ε α}
    (h : inquiry.run.run oracle solver = (.ok result, solver)) :
    Writes solver (attempt inquiry) "" result := by
  intro text
  have hrun : (attempt inquiry).run.run text =
      inquiry.run >>= fun result => pure (.ok result, text) := by
    simp only [attempt, ExceptT.run_lift, StateT.run_map, StateT.run_lift, Dialogue.pure_eq,
      map_bind]
    rfl
  rw [hrun, Dialogue.run_bind, Step.bind_apply, h, String.append_empty]
  rfl

theorem writes_require {inquiry : Inquiry Constraint Assignment Var DiagnosisError α} {value : α}
    (h : inquiry.run.run oracle solver = (.ok (.ok value), solver)) :
    Writes solver (require inquiry) "" value :=
  (writes_attempt h).andThen (writes_pure value)

theorem writes_ofMisuse {x : Except Misuse α} {value : α} (h : x = .ok value) :
    Writes solver (ofMisuse x) "" value := by
  rw [h]
  exact writes_pure value

theorem writes_mapM {f : α → Report β} {xs : List α} {ys : List β}
    (h : List.Forall₂ (fun x y => Writes solver (f x) "" y) xs ys) :
    Writes solver (xs.mapM f) "" ys := by
  induction h with
  | nil => exact writes_pure []
  | cons hx _ ih =>
      rw [List.mapM_cons]
      exact hx.andThen (ih.bind_pure)

end Report

/-! ## Lessons -/

namespace Lesson

open Report

variable {lesson : Lesson} {solver : Solver} {verify : Bool}

/-- The lesson keeps to the variables of its model. -/
structure IsDeclared (lesson : Lesson) : Prop where
  constraints : ∀ c ∈ lesson.problem.hard ++ lesson.problem.soft, lesson.model.Declares c.vars
  shown : lesson.model.Declares lesson.shown

/-- A constraint as it appears in a report. -/
def bracketed (lesson : Lesson) (c : Constraint) : String :=
  "[" ++ c.text lesson.model.label ++ "]"

/-- The text gives the value of a variable in a solution. -/
def Shows (lesson : Lesson) (solution : Assignment) (var : Var) (text : String) : Prop :=
  ∃ value, solution.value? var = some value ∧
    text = lesson.model.label var ++ "=" ++ toString value.toInt

theorem writes_constraintText {c : Constraint} (hc : lesson.model.Declares c.vars) :
    Writes solver (lesson.constraintText c) "" (lesson.bracketed c) := by
  have hnone : c.vars.find? (lesson.model.size ≤ ·) = none := by
    simpa using fun v hv => hc v hv
  have hdescribe : lesson.model.describe c = .ok (c.text lesson.model.label) := by
    rw [Model.describe, hnone]
  exact (writes_ofMisuse hdescribe).bind_pure

theorem writes_diagnosisText (hlesson : lesson.IsDeclared)
    (diagnosis : Diagnosis lesson.problem.soft) :
    Writes solver (lesson.diagnosisText diagnosis) ""
      (" ".intercalate (diagnosis.toList.map lesson.bracketed)) := by
  refine (writes_mapM (List.forall₂_map_right_iff.mpr ?_)).bind_pure
  refine List.forall₂_same.mpr fun c hc => writes_constraintText (hlesson.constraints c ?_)
  obtain ⟨position, -, hget⟩ := List.mem_filterMap.mp hc
  exact List.mem_append_right _ (List.mem_of_getElem? hget)

theorem writes_valueText {solution : Assignment} {var : Var} {text : String}
    (h : lesson.Shows solution var text) :
    Writes solver (lesson.valueText solution var) "" text := by
  obtain ⟨value, hvalue, rfl⟩ := h
  rw [valueText, hvalue]
  exact writes_pure _

theorem exists_shows (hlesson : lesson.IsDeclared) {solution : Assignment}
    (hsolution : lesson.model.Admits solution) :
    ∃ texts, List.Forall₂ (lesson.Shows solution) lesson.shown texts := by
  have hshown : ∀ var ∈ lesson.shown, ∃ text, lesson.Shows solution var text := by
    intro var hvar
    obtain ⟨value, hvalue⟩ := Option.isSome_iff_exists.mp
      (hsolution.isSome_value? (hlesson.shown var hvar))
    exact ⟨_, value, hvalue, rfl⟩
  choose! text htext using hshown
  exact ⟨lesson.shown.map text, List.forall₂_map_right_iff.mpr (List.forall₂_same.mpr htext)⟩

/-- Something is equated in the text of a solution, unless nothing is shown at all. -/
theorem intercalate_ne_none {solution : Assignment} {vars : List Var} {texts : List String}
    (h : List.Forall₂ (lesson.Shows solution) vars texts) : " ".intercalate texts ≠ "none" := by
  cases h with
  | nil => decide
  | @cons _ text _ texts hshows _ =>
      obtain ⟨value, -, rfl⟩ := hshows
      intro hnone
      have hmem : '=' ∈ "none".toList := by
        rw [← hnone, String.toList_intercalate]
        cases texts <;> simp [List.intercalate]
      exact absurd hmem (by decide)

theorem writes_solutionText {correction : Diagnosis lesson.problem.soft} {solution : Assignment}
    {texts : List String}
    (hsolve : solver.solve (lesson.problem.select correction.complement) =
      .ok (.ok (.satisfiable solution)))
    (hshows : List.Forall₂ (lesson.Shows solution) lesson.shown texts) :
    Writes solver (lesson.solutionText correction) "" (" ".intercalate texts) := by
  have hrun : ((lesson.problem.ask correction.complement).orUnavailable :
      Inquiry Constraint Assignment Var DiagnosisError _).run.run oracle solver =
        (.ok (.ok (.satisfiable solution)), solver) := by
    have hask : ∀ position ∈ correction.complement, position < lesson.problem.soft.length :=
      fun position hmem => (Diagnosis.mem_complement.mp hmem).1
    have hanswer : oracle.answer (.solve (lesson.problem.select correction.complement)) solver =
        (.ok (.ok (.satisfiable solution)), solver) := congrArg (·, solver) hsolve
    rw [Problem.ask_eq_solve _ hask, Inquiry.run_orUnavailable_apply]
    rw [show (Inquiry.solve _).run.run oracle solver = _ from Dialogue.run_ask_of_ok hanswer]
    rfl
  refine (writes_require hrun).andThen ?_
  refine (writes_mapM ?_).bind_pure
  exact hshows.imp fun _ _ h => writes_valueText h

/-! ## Methods -/

/-- A new solver for the model of the lesson. -/
def newSolver (lesson : Lesson) (limit : Nat) : Solver :=
  { model := lesson.model, limit }

/-- What a method tells about a lesson: its diagnosis or its error, and a solution of what a
correction leaves. -/
inductive Tells (lesson : Lesson) (limit : Nat) (verify : Bool) (method : Method) :
    String → Prop where
  | core {core : Diagnosis lesson.problem.soft} : method.kind = .core →
      (method.diagnose verify lesson.problem).result oracle (lesson.newSolver limit) =
        .ok (.ok core) →
      Tells lesson limit verify method
        (row method.heading (" ".intercalate (core.toList.map lesson.bracketed)))
  | correction {correction : Diagnosis lesson.problem.soft} {solution : Assignment}
      {texts : List String} : method.kind = .correction →
      (method.diagnose verify lesson.problem).result oracle (lesson.newSolver limit) =
        .ok (.ok correction) →
      IsLeast {a | lesson.model.Admits a ∧
        ∀ c ∈ lesson.problem.select correction.complement, a.eval c = .ok true} solution →
      List.Forall₂ (lesson.Shows solution) lesson.shown texts →
      " ".intercalate texts ≠ "none" →
      Tells lesson limit verify method
        (row method.heading (" ".intercalate (correction.toList.map lesson.bracketed)) ++
          row "  solution" (" ".intercalate texts))
  | error {error : DiagnosisError} :
      (method.diagnose verify lesson.problem).result oracle (lesson.newSolver limit) =
        .ok (.error error) →
      Tells lesson limit verify method (row method.heading error.message)

/-- The method has no diagnosis for want of a verdict. -/
def AtFault (lesson : Lesson) (limit : Nat) (verify : Bool) (method : Method) : Prop :=
  ∃ error, (method.diagnose verify lesson.problem).result oracle (lesson.newSolver limit) =
    .ok (.error (.unavailable error))

/-- A method adds its lines, and finds out whether the solver was at fault. -/
theorem writes_reportMethod (hlesson : lesson.IsDeclared) (limit : Nat) (verify : Bool)
    (method : Method) :
    ∃ block atFault, lesson.Tells limit verify method block ∧
      (atFault = true ↔ lesson.AtFault limit verify method) ∧
      Writes (lesson.newSolver limit) (lesson.reportMethod verify method) block atFault := by
  obtain ⟨result, hrun⟩ :=
    (restores_diagnose method verify lesson.problem).exists_run_eq
      (show (lesson.newSolver limit).indicators = [] from rfl) rfl
  have hresult : (method.diagnose verify lesson.problem).result oracle (lesson.newSolver limit) =
      .ok result := congrArg Prod.fst hrun
  have hattempt := writes_attempt hrun
  rcases result with error | diagnosis
  · cases error with
    | unavailable error =>
        exact ⟨_, true, .error hresult, by simp [AtFault, hresult],
          hattempt.andThen (writes_entry _ _).bind_pure⟩
    | invalidInput reason =>
        exact ⟨_, false, .error hresult, by simp [AtFault, hresult],
          hattempt.andThen (writes_entry _ _).bind_pure⟩
    | softTermsUnsupported =>
        exact ⟨_, false, .error hresult, by simp [AtFault, hresult],
          hattempt.andThen (writes_entry _ _).bind_pure⟩
  · have hcalm : false = true ↔ lesson.AtFault limit verify method := by
      simp [AtFault, hresult]
    have htext : Writes (lesson.newSolver limit) (lesson.diagnosisText diagnosis) ""
        (" ".intercalate (diagnosis.toList.map lesson.bracketed)) :=
      writes_diagnosisText hlesson diagnosis
    cases hkind : method.kind with
    | core =>
        refine ⟨_, false, .core hkind hresult, hcalm, ?_⟩
        rw [reportMethod, hkind]
        exact hattempt.andThen (htext.andThen (writes_entry _ _).bind_pure)
    | correction =>
        obtain ⟨solution, hsolve, hleast⟩ := exists_least_solution hkind
          (show (lesson.newSolver limit).softConstraints = true from rfl) (by simp [newSolver])
          hlesson.constraints hresult
        obtain ⟨texts, hshows⟩ := lesson.exists_shows hlesson hleast.1.1
        have hsolution := writes_solutionText hsolve hshows
        refine ⟨_, false, .correction hkind hresult hleast hshows (intercalate_ne_none hshows),
          hcalm, ?_⟩
        rw [reportMethod, hkind]
        exact hattempt.andThen (htext.andThen ((writes_entry _ _).bind
          (hsolution.andThen (writes_entry _ _).bind_pure)))

/-- The methods add one block after another. -/
theorem writes_reportMethods (hlesson : lesson.IsDeclared) (limit : Nat) (verify : Bool)
    (methods : List Method) :
    ∃ blocks atFault, List.Forall₂ (lesson.Tells limit verify) methods blocks ∧
      (atFault = true ↔ ∃ method ∈ methods, lesson.AtFault limit verify method) ∧
      Writes (lesson.newSolver limit) (lesson.reportMethods verify methods) (String.join blocks)
        atFault := by
  induction methods with
  | nil => exact ⟨[], false, .nil, by simp, writes_pure false⟩
  | cons method methods ih =>
      obtain ⟨block, atFault, htells, hfault, hwrites⟩ :=
        writes_reportMethod hlesson limit verify method
      obtain ⟨blocks, later, htells', hfault', hwrites'⟩ := ih
      refine ⟨block :: blocks, later || atFault, .cons htells htells', ?_, ?_⟩
      · simp [hfault, hfault', or_comm]
      · rw [String.join_cons]
        exact hwrites.bind hwrites'.bind_pure

/-! ## Reports -/

/-- How a report ends: with a constraint that the solver fails on alone, if it was at fault and
there is one. -/
inductive Closes (lesson : Lesson) (limit : Nat) (verify : Bool) (methods : List Method) :
    String → Prop where
  | calm : (∀ method ∈ methods, ¬ lesson.AtFault limit verify method) →
      Closes lesson limit verify methods ""
  | elusive : (∃ method ∈ methods, lesson.AtFault limit verify method) →
      Isolates (lesson.newSolver limit) lesson.problem.soft none →
      Closes lesson limit verify methods ""
  | faulty {fault : Fault} {c : Constraint} :
      (∃ method ∈ methods, lesson.AtFault limit verify method) →
      Isolates (lesson.newSolver limit) lesson.problem.soft (some fault) →
      lesson.problem.soft[fault.position]? = some c →
      Closes lesson limit verify methods
        (row "Faulty" (lesson.bracketed c ++ " (" ++ fault.error.message ++ ")"))

/-- Without soft constraints no method asks anything. -/
theorem AtFault.soft_ne_nil {limit : Nat} {method : Method}
    (h : lesson.AtFault limit verify method) : lesson.problem.soft ≠ [] := by
  intro hsoft
  obtain ⟨error, herror⟩ := h
  have hyields := Dialogue.yields_of_run herror
  have hempty : (.error (.unavailable error) : Except DiagnosisError
      (Diagnosis lesson.problem.soft)) = .error (.invalidInput .empty) := by
    cases method <;> exact Problem.result_of_eq_nil hsoft hyields
  cases hempty

theorem writes_reportFault (hlesson : lesson.IsDeclared) {limit : Nat} {methods : List Method}
    (h : ∃ method ∈ methods, lesson.AtFault limit verify method) :
    ∃ closing, lesson.Closes limit verify methods closing ∧
      Writes (lesson.newSolver limit) lesson.reportFault closing () := by
  obtain ⟨method, -, hfault⟩ := id h
  obtain ⟨found, hfound, hrun⟩ := run_first? hfault.soft_ne_nil (lesson.newSolver limit)
  cases found with
  | none => exact ⟨_, .elusive h hfound, (writes_require hrun).andThen (writes_pure ())⟩
  | some fault =>
      obtain ⟨c, hget, -⟩ := hfound.exists_constraint
      have hc := hlesson.constraints c (List.mem_append_right _ (List.mem_of_getElem? hget))
      refine ⟨_, .faulty h hfound hget, ?_⟩
      rw [reportFault]
      refine (writes_require hrun).andThen ?_
      simp only [hget]
      exact (writes_constraintText hc).andThen (writes_entry _ _)

theorem writes_report (hlesson : lesson.IsDeclared) (limit : Nat) (verify : Bool)
    (methods : List Method) :
    ∃ blocks closing, List.Forall₂ (lesson.Tells limit verify) methods blocks ∧
      lesson.Closes limit verify methods closing ∧
      Writes (lesson.newSolver limit) (lesson.report verify methods)
        ("=== " ++ lesson.title ++ " ===\n" ++ String.join blocks ++ closing) () := by
  obtain ⟨blocks, atFault, htells, hfault, hwrites⟩ :=
    writes_reportMethods hlesson limit verify methods
  have hend : ∃ closing, lesson.Closes limit verify methods closing ∧
      Writes (lesson.newSolver limit) (if atFault then lesson.reportFault else return) closing
        () := by
    cases atFault with
    | false =>
        refine ⟨"", .calm fun method hmem h => ?_, writes_pure ()⟩
        exact Bool.false_ne_true (hfault.mpr ⟨method, hmem, h⟩)
    | true => exact writes_reportFault hlesson (hfault.mp rfl)
  obtain ⟨closing, hcloses, hwrites'⟩ := hend
  refine ⟨blocks, closing, htells, hcloses, ?_⟩
  have hparts : "=== " ++ lesson.title ++ " ===\n" ++ String.join blocks ++ closing =
      "=== " ++ lesson.title ++ " ===" ++ "\n" ++ (String.join blocks ++ closing) := by
    simp [String.append_assoc]
  rw [report, hparts]
  refine (writes_line _).bind ?_
  exact hwrites.bind hwrites'

/-- A report on any lesson that keeps to its model comes to its end, whatever the methods find and
however few assignments the solver may try. The solution after a correction is the least one of what
the correction leaves. -/
theorem run_report (hlesson : lesson.IsDeclared) (limit : Nat) (verify : Bool)
    (methods : List Method) (text : String) :
    ∃ blocks closing, List.Forall₂ (lesson.Tells limit verify) methods blocks ∧
      lesson.Closes limit verify methods closing ∧
      ((lesson.report verify methods).run.run text).run oracle (lesson.newSolver limit) =
        (.ok (.ok (), text ++
          ("=== " ++ lesson.title ++ " ===\n" ++ String.join blocks ++ closing)),
          lesson.newSolver limit) := by
  obtain ⟨blocks, closing, htells, hcloses, hwrites⟩ :=
    writes_report hlesson limit verify methods
  exact ⟨blocks, closing, htells, hcloses, hwrites text⟩

/-- Growth never divides by zero, and the report shows what its correction leaves. The search for a
smallest correction does, and the report names the division. -/
theorem run_report_of_division :
    let lesson : Lesson := {
      title := "quotient"
      model := ⟨#[⟨"x", 0, 4, by decide⟩]⟩
      shown := [0]
      problem := {
        soft := [.compare .ge (.var 0) (.const 1),
          .compare .eq (.binary .div (.const 6) (.var 0)) (.const 3),
          .compare .eq (.var 0) (.const 3)]
        hard := [.compare .ne (.var 0) (.const 4)] } }
    let run := ((lesson.report true [.growth, .softTerms]).run.run "").run oracle
      (lesson.newSolver 5)
    lesson.IsDeclared ∧
      (∃ blocks closing, List.Forall₂ (lesson.Tells 5 true) [.growth, .softTerms] blocks ∧
        lesson.Closes 5 true [.growth, .softTerms] closing ∧
        run = (.ok (.ok (), "" ++
          ("=== " ++ lesson.title ++ " ===\n" ++ String.join blocks ++ closing)),
          lesson.newSolver 5)) ∧
      run.1 = .ok (.ok (),
        "=== quotient ===\n" ++
        "McsGrow      [x == 3]\n" ++
        "  solution   x=2\n" ++
        "McsDirect    diagnosis unavailable: " ++
          "solver failure: division by zero in `6 / x == 3`\n" ++
        "Faulty       [6 / x == 3] " ++
          "(solver failure: division by zero in `6 / x == 3`)\n") := by
  intro lesson run
  have hlesson : lesson.IsDeclared := ⟨by decide +kernel, by decide +kernel⟩
  exact ⟨hlesson, run_report hlesson 5 true [.growth, .softTerms] "", by decide +kernel⟩

end Lesson

/-! ## Lectures -/

theorem Lecture.isDeclared_lesson (lecture : Lecture) : lecture.lesson.IsDeclared := by
  cases lecture <;> exact ⟨by decide +kernel, by decide +kernel⟩

/-- The reports on the lectures follow one another, and none of them ends the run. -/
theorem CommandLine.reportAll_eq (limit : UInt64) (verify : Bool) (methods : List Method)
    (lectures : List Lecture) (output : Output) :
    ∃ text, reportAll limit verify methods lectures output =
      { output with text := output.text ++ text } := by
  induction lectures generalizing output with
  | nil => exact ⟨"", by simp [reportAll]⟩
  | cons lecture lectures ih =>
      have hreport : ∃ added, Report.Writes (lecture.lesson.newSolver limit.toNat)
          (lecture.lesson.report verify methods) added () := by
        obtain ⟨_, _, -, -, hwrites⟩ :=
          Lesson.writes_report lecture.isDeclared_lesson limit.toNat verify methods
        exact ⟨_, hwrites⟩
      obtain ⟨added, hwrites⟩ := hreport
      obtain ⟨rest, hrest⟩ := ih { output with text := output.text ++ added }
      refine ⟨added ++ rest, ?_⟩
      have hrun : (((lecture.lesson.report verify methods).run.run output.text).run oracle
          { model := lecture.lesson.model, limit := limit.toNat }).1 =
            .ok (.ok (), output.text ++ added) := congrArg Prod.fst (hwrites output.text)
      rw [reportAll, hrun, ← String.append_assoc]
      exact hrest

end Infeasibility
