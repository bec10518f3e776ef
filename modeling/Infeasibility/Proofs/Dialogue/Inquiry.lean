import Infeasibility.Diagnosis.Error
import Infeasibility.Problem
import Infeasibility.Proofs.Dialogue.Trace

/-! # Traces of inquiries

An inquiry passes the first error on. What is concluded from a run rests on the verdicts among its
exchanges: `Answered` finds a verdict, and `Truthful` compares all of them with a predicate. -/

namespace Infeasibility

/-- What comes of an inquiry that is made to an oracle in some state. -/
def Inquiry.result {σ C A ι ε α : Type} (oracle : Oracle σ C A ι) (x : Inquiry C A ι ε α)
    (state : σ) : Except Misuse (Except ε α) :=
  (x.run.run oracle state).1

namespace Inquiry

variable {σ C A ι ε α β : Type}

/-! ## Sequencing -/

/-- An inquiry in two parts ends with an error of its first part, or as its second part does. -/
theorem yields_bind_iff {x : Inquiry C A ι ε α} {f : α → Inquiry C A ι ε β}
    {exchanges : List (Exchange C A ι)} {result : Except ε β} :
    (x >>= f).run.Yields exchanges result ↔
      (∃ error, x.run.Yields exchanges (.error error) ∧ result = .error error) ∨
        ∃ first second value, exchanges = first ++ second ∧ x.run.Yields first (.ok value) ∧
          (f value).run.Yields second result := by
  rw [ExceptT.run_bind, Dialogue.yields_bind_iff]
  constructor
  · rintro ⟨first, second, error | value, rfl, hx, hf⟩
    · obtain ⟨rfl, rfl⟩ := Dialogue.yields_done_iff.mp hf
      exact .inl ⟨error, by simpa using hx, rfl⟩
    · exact .inr ⟨first, second, value, rfl, hx, hf⟩
  · rintro (⟨error, hx, rfl⟩ | ⟨first, second, value, rfl, hx, hf⟩)
    · exact ⟨exchanges, [], .error error, by simp, hx, .done _⟩
    · exact ⟨first, second, .ok value, rfl, hx, hf⟩

theorem yields_bind_ok_iff {x : Inquiry C A ι ε α} {f : α → Inquiry C A ι ε β}
    {exchanges : List (Exchange C A ι)} {result : β} :
    (x >>= f).run.Yields exchanges (.ok result) ↔
      ∃ first second value, exchanges = first ++ second ∧ x.run.Yields first (.ok value) ∧
        (f value).run.Yields second (.ok result) := by
  rw [yields_bind_iff]
  constructor
  · rintro (⟨error, -, herror⟩ | h)
    · cases herror
    · exact h
  · intro h
    exact .inr h

theorem yields_lift_iff {x : Dialogue C A ι α} {exchanges : List (Exchange C A ι)}
    {result : Except ε α} :
    (ExceptT.lift x : Inquiry C A ι ε α).run.Yields exchanges result ↔
      ∃ value, x.Yields exchanges value ∧ result = .ok value := by
  change (Except.ok <$> x).Yields exchanges result ↔ _
  rw [← bind_pure_comp, Dialogue.yields_bind_iff]
  constructor
  · rintro ⟨first, second, value, rfl, hx, hf⟩
    obtain ⟨rfl, rfl⟩ := Dialogue.yields_done_iff.mp hf
    exact ⟨value, by simpa using hx, rfl⟩
  · rintro ⟨value, hx, rfl⟩
    exact ⟨exchanges, [], value, by simp, hx, .done _⟩

/-- The two parts of an inquiry may only ask what the whole may ask. -/
theorem asks_bind {P : Question C ι → Prop} {x : Inquiry C A ι ε α}
    {f : α → Inquiry C A ι ε β} (hx : x.run.Asks P)
    (hf : ∀ exchanges value, x.run.Yields exchanges (.ok value) → (f value).run.Asks P) :
    (x >>= f).run.Asks P := by
  rw [ExceptT.run_bind]
  refine hx.bind fun exchanges result h => ?_
  cases result with
  | error error => exact Dialogue.asks_done P _
  | ok value => exact hf exchanges value h

theorem asks_lift {P : Question C ι → Prop} {x : Dialogue C A ι α} (hx : x.Asks P) :
    (ExceptT.lift x : Inquiry C A ι ε α).run.Asks P := by
  change (Except.ok <$> x).Asks P
  rw [← bind_pure_comp]
  exact hx.bind fun _ _ _ => Dialogue.asks_done P _

theorem asks_mapM {P : Question C ι → Prop} {f : α → Inquiry C A ι ε β} {xs : List α}
    (h : ∀ x ∈ xs, (f x).run.Asks P) : (xs.mapM f).run.Asks P := by
  induction xs with
  | nil => exact Dialogue.asks_done P _
  | cons x xs ih =>
      obtain ⟨hx, hxs⟩ := List.forall_mem_cons.mp h
      rw [List.mapM_cons]
      refine asks_bind hx fun _ _ _ => asks_bind (ih hxs) fun _ _ _ => Dialogue.asks_done P _

/-- There is one value for each element of the list. -/
theorem length_of_yields_mapM {f : α → Inquiry C A ι ε β} {xs : List α} {ys : List β}
    {exchanges : List (Exchange C A ι)} (h : (xs.mapM f).run.Yields exchanges (.ok ys)) :
    ys.length = xs.length := by
  induction xs generalizing ys exchanges with
  | nil =>
      obtain ⟨-, hys⟩ := Dialogue.yields_done_iff.mp h
      cases hys
      rfl
  | cons x xs ih =>
      rw [List.mapM_cons] at h
      obtain ⟨_, _, y, -, -, h⟩ := yields_bind_ok_iff.mp h
      obtain ⟨_, _, rest, -, hrest, h⟩ := yields_bind_ok_iff.mp h
      obtain ⟨-, hys⟩ := Dialogue.yields_done_iff.mp h
      cases hys
      rw [List.length_cons, List.length_cons, ih hrest]

/-! ## Runs in two parts -/

variable {oracle : Oracle σ C A ι} {x : Inquiry C A ι ε α} {f : α → Inquiry C A ι ε β}
  {state state' : σ}

/-- An inquiry in two parts runs the second part in the state that the first part leaves. -/
theorem run_bind_apply : (x >>= f).run.run oracle state =
    match x.run.run oracle state with
    | (.ok (.ok value), state') => (f value).run.run oracle state'
    | (.ok (.error error), state') => (.ok (.error error), state')
    | (.error misuse, state') => (.error misuse, state') := by
  rw [ExceptT.run_bind, Dialogue.run_bind, Step.bind_apply]
  rcases x.run.run oracle state with ⟨misuse | error | value, state'⟩ <;> rfl

theorem run_bind_of_ok {value : α} (h : x.run.run oracle state = (.ok (.ok value), state')) :
    (x >>= f).run.run oracle state = (f value).run.run oracle state' := by
  rw [run_bind_apply, h]

theorem run_bind_of_misuse {misuse : Misuse}
    (h : x.run.run oracle state = (.error misuse, state')) :
    (x >>= f).run.run oracle state = (.error misuse, state') := by
  rw [run_bind_apply, h]

theorem result_bind_of_ok {value : α} (h : x.run.run oracle state = (.ok (.ok value), state')) :
    (x >>= f).result oracle state = (f value).result oracle state' := by
  rw [result, run_bind_of_ok h, ← result]

theorem result_bind_of_error {error : ε}
    (h : x.run.run oracle state = (.ok (.error error), state')) :
    (x >>= f).result oracle state = .ok (.error error) := by
  rw [result, run_bind_apply, h]

theorem result_bind_of_misuse {misuse : Misuse}
    (h : x.run.run oracle state = (.error misuse, state')) :
    (x >>= f).result oracle state = .error misuse := by
  rw [result, run_bind_of_misuse h]

theorem run_lift_of_ok {d : Dialogue C A ι α} {value : α}
    (h : d.run oracle state = (.ok value, state')) :
    (ExceptT.lift d : Inquiry C A ι ε α).run.run oracle state = (.ok (.ok value), state') := by
  change (Except.ok <$> d).run oracle state = _
  rw [← bind_pure_comp, Dialogue.run_bind, Step.bind_apply, h]
  rfl

theorem run_lift_of_error {d : Dialogue C A ι α} {misuse : Misuse}
    (h : d.run oracle state = (.error misuse, state')) :
    (ExceptT.lift d : Inquiry C A ι ε α).run.run oracle state = (.error misuse, state') := by
  change (Except.ok <$> d).run oracle state = _
  rw [← bind_pure_comp, Dialogue.run_bind, Step.bind_apply, h]

/-! ## Errors of the oracle -/

theorem run_orUnavailable_apply (oracle : Oracle σ C A ι) (x : Inquiry C A ι OracleError α)
    (state : σ) :
    x.orUnavailable.run.run oracle state =
      match x.run.run oracle state with
      | (.ok inner, state') => (.ok (inner.mapError .unavailable), state')
      | (.error misuse, state') => (.error misuse, state') := by
  change (Except.mapError DiagnosisError.unavailable <$> x.run).run oracle state = _
  rw [← bind_pure_comp, Dialogue.run_bind, Step.bind_apply]
  rcases x.run.run oracle state with ⟨misuse | inner, state'⟩ <;> rfl

theorem yields_orUnavailable_iff {x : Inquiry C A ι OracleError α}
    {exchanges : List (Exchange C A ι)} {result : Except DiagnosisError α} :
    x.orUnavailable.run.Yields exchanges result ↔
      ∃ inner, x.run.Yields exchanges inner ∧ result = inner.mapError .unavailable := by
  change (Except.mapError DiagnosisError.unavailable <$> x.run).Yields exchanges result ↔ _
  rw [← bind_pure_comp, Dialogue.yields_bind_iff]
  constructor
  · rintro ⟨first, second, inner, rfl, hx, hf⟩
    obtain ⟨rfl, rfl⟩ := Dialogue.yields_done_iff.mp hf
    exact ⟨inner, by simpa using hx, rfl⟩
  · rintro ⟨inner, hx, rfl⟩
    exact ⟨exchanges, [], inner, by simp, hx, .done _⟩

theorem yields_orUnavailable_ok_iff {x : Inquiry C A ι OracleError α}
    {exchanges : List (Exchange C A ι)} {value : α} :
    x.orUnavailable.run.Yields exchanges (.ok value) ↔ x.run.Yields exchanges (.ok value) := by
  rw [yields_orUnavailable_iff]
  constructor
  · rintro ⟨error | inner, hx, h⟩
    · cases h
    · obtain rfl := Except.ok.inj h
      exact hx
  · intro hx
    exact ⟨_, hx, rfl⟩

theorem yields_orUnavailable_error_iff {x : Inquiry C A ι OracleError α}
    {exchanges : List (Exchange C A ι)} {error : DiagnosisError} :
    x.orUnavailable.run.Yields exchanges (.error error) ↔
      ∃ cause, error = .unavailable cause ∧ x.run.Yields exchanges (.error cause) := by
  rw [yields_orUnavailable_iff]
  constructor
  · rintro ⟨cause | inner, hx, h⟩
    · exact ⟨cause, Except.error.inj h, hx⟩
    · cases h
  · rintro ⟨cause, rfl, hx⟩
    exact ⟨_, hx, rfl⟩

theorem asks_orUnavailable {P : Question C ι → Prop} {x : Inquiry C A ι OracleError α}
    (hx : x.run.Asks P) : x.orUnavailable.run.Asks P := by
  change (Except.mapError DiagnosisError.unavailable <$> x.run).Asks P
  rw [← bind_pure_comp]
  exact hx.bind fun exchanges result h => Dialogue.asks_done P _

end Inquiry

/-! ## Verdicts -/

section Verdicts

variable {σ C A ι α : Type}

/-- One of the exchanges is a verdict on the constraints. -/
def Answered (exchanges : List (Exchange C A ι)) (constraints : List C) (satisfiable : Bool) :
    Prop :=
  ∃ outcome : Outcome A, outcome.isSat = satisfiable ∧
    ⟨.solve constraints, .ok (.ok outcome)⟩ ∈ exchanges

/-- For one of the exchanges the oracle had no verdict, for this reason. -/
def Failed (exchanges : List (Exchange C A ι)) (error : OracleError) : Prop :=
  ∃ constraints, ⟨.solve constraints, .ok (.error error)⟩ ∈ exchanges

/-- The verdicts among the exchanges are those of a predicate. -/
def Truthful (sat : List C → Prop) (exchanges : List (Exchange C A ι)) : Prop :=
  ∀ constraints satisfiable, Answered exchanges constraints satisfiable →
    (satisfiable ↔ sat constraints)

theorem Answered.append_left {first second : List (Exchange C A ι)} {constraints : List C}
    {satisfiable : Bool} (h : Answered second constraints satisfiable) :
    Answered (first ++ second) constraints satisfiable := by
  obtain ⟨outcome, houtcome, hmem⟩ := h
  exact ⟨outcome, houtcome, List.mem_append_right first hmem⟩

theorem Answered.append_right {first second : List (Exchange C A ι)} {constraints : List C}
    {satisfiable : Bool} (h : Answered first constraints satisfiable) :
    Answered (first ++ second) constraints satisfiable := by
  obtain ⟨outcome, houtcome, hmem⟩ := h
  exact ⟨outcome, houtcome, List.mem_append_left second hmem⟩

theorem Failed.append_left {first second : List (Exchange C A ι)} {error : OracleError}
    (h : Failed second error) : Failed (first ++ second) error := by
  obtain ⟨constraints, hmem⟩ := h
  exact ⟨constraints, List.mem_append_right first hmem⟩

theorem Failed.append_right {first second : List (Exchange C A ι)} {error : OracleError}
    (h : Failed first error) : Failed (first ++ second) error := by
  obtain ⟨constraints, hmem⟩ := h
  exact ⟨constraints, List.mem_append_left second hmem⟩

theorem Truthful.sat {sat : List C → Prop} {exchanges : List (Exchange C A ι)}
    (h : Truthful sat exchanges) {constraints : List C}
    (hanswer : Answered exchanges constraints true) : sat constraints :=
  (h constraints true hanswer).mp rfl

theorem Truthful.unsat {sat : List C → Prop} {exchanges : List (Exchange C A ι)}
    (h : Truthful sat exchanges) {constraints : List C}
    (hanswer : Answered exchanges constraints false) : ¬ sat constraints := by
  intro hsat
  cases (h constraints false hanswer).mpr hsat

/-! ## Oracles that decide -/

/-- The question is for a verdict on constraints. -/
def Question.IsSolve (question : Question C ι) : Prop :=
  ∃ constraints, question = .solve constraints

/-- The oracle always has a verdict, and its verdicts are those of a predicate. -/
def Oracle.Decides (oracle : Oracle σ C A ι) (sat : List C → Prop) : Prop :=
  ∀ constraints state, ∃ outcome state',
    oracle.solve constraints state = (.ok (.ok outcome), state') ∧
      (outcome.isSat ↔ sat constraints)

/-- The question is for a verdict on constraints with a property. -/
def Question.IsSolveOf (P : List C → Prop) (question : Question C ι) : Prop :=
  ∃ constraints, P constraints ∧ question = .solve constraints

/-- In certain states the oracle always has a verdict on constraints with a property. Its verdicts
are those of a predicate, and it stays in such a state. -/
def Oracle.DecidesOn (oracle : Oracle σ C A ι) (sat : List C → Prop) (P : List C → Prop)
    (I : σ → Prop) : Prop :=
  ∀ constraints state, P constraints → I state → ∃ outcome state',
    oracle.solve constraints state = (.ok (.ok outcome), state') ∧ I state' ∧
      (outcome.isSat ↔ sat constraints)

/-- An oracle that decides answers all questions for verdicts, and truthfully. -/
theorem Oracle.DecidesOn.exists_result {oracle : Oracle σ C A ι} {sat P : List C → Prop}
    {I : σ → Prop} (horacle : oracle.DecidesOn sat P I) {ε : Type} {x : Inquiry C A ι ε α}
    (hx : x.run.Asks (Question.IsSolveOf P)) {state : σ} (hstate : I state) :
    ∃ result exchanges, x.result oracle state = .ok result ∧ x.run.Yields exchanges result ∧
      Truthful sat exchanges ∧ ∀ error, ¬ Failed exchanges error := by
  have hanswer : ∀ question state, question.IsSolveOf P → I state →
      ∃ answer state', oracle.answer question state = (.ok answer, state') ∧ I state' := by
    rintro _ state ⟨constraints, hP, rfl⟩ hI
    obtain ⟨outcome, state', hsolve, hI', -⟩ := horacle constraints state hP hI
    exact ⟨_, state', hsolve, hI'⟩
  obtain ⟨result, state', hrun, -⟩ := Dialogue.exists_run_eq_ok hx hanswer hstate
  have hresult : x.result oracle state = .ok result := congrArg Prod.fst hrun
  have hexchange := Dialogue.answer_of_mem_transcript hx
    (fun question state hP hI => by
      obtain ⟨answer, state', hsame, hI'⟩ := hanswer question state hP hI
      rwa [hsame]) hstate
  refine ⟨result, _, hresult, Dialogue.yields_of_run hresult, ?_, ?_⟩
  · rintro constraints satisfiable ⟨outcome, rfl, hmem⟩
    obtain ⟨⟨_, hP, hquestion⟩, state, hI, hsolve⟩ := hexchange _ hmem
    cases hquestion
    obtain ⟨verdict, state', hverdict, -, hsat⟩ := horacle constraints state hP hI
    have heq : Except.ok (Except.ok outcome) = Except.ok (Except.ok verdict) :=
      hsolve.symm.trans (congrArg Prod.fst hverdict)
    cases heq
    exact hsat
  · rintro error ⟨constraints, hmem⟩
    obtain ⟨⟨_, hP, hquestion⟩, state, hI, hsolve⟩ := hexchange _ hmem
    cases hquestion
    obtain ⟨verdict, state', hverdict, -⟩ := horacle constraints state hP hI
    have heq : Except.ok (Except.error error) = Except.ok (Except.ok verdict) :=
      hsolve.symm.trans (congrArg Prod.fst hverdict)
    cases heq

theorem Oracle.Decides.exists_result {oracle : Oracle σ C A ι} {sat : List C → Prop}
    (horacle : oracle.Decides sat) {ε : Type} {x : Inquiry C A ι ε α}
    (hx : x.run.Asks Question.IsSolve) (state : σ) :
    ∃ result exchanges, x.result oracle state = .ok result ∧ x.run.Yields exchanges result ∧
      Truthful sat exchanges ∧ ∀ error, ¬ Failed exchanges error := by
  have hanywhere : oracle.DecidesOn sat (fun _ => True) fun _ => True := by
    intro constraints state _ _
    obtain ⟨outcome, state', hsolve, hsat⟩ := horacle constraints state
    exact ⟨outcome, state', hsolve, trivial, hsat⟩
  refine hanywhere.exists_result (hx.imp ?_) trivial
  rintro _ ⟨constraints, rfl⟩
  exact ⟨constraints, trivial, rfl⟩

/-- The oracle that knows a predicate and has no use for a state or for indicators. -/
def Oracle.ofPredicate (sat : List C → Bool) : Oracle Unit C Unit Unit where
  solve constraints := pure (.ok (if sat constraints then .satisfiable () else .unsatisfiable))
  newIndicator := pure ()
  implication _ constraint := pure constraint
  maximize hard _ := pure (.ok (if sat hard then .optimal [] () else .unsatisfiable))

theorem Oracle.decides_ofPredicate (sat : List C → Bool) :
    (Oracle.ofPredicate sat).Decides fun constraints => sat constraints = true := by
  intro constraints state
  refine ⟨if sat constraints then .satisfiable () else .unsatisfiable, state, rfl, ?_⟩
  by_cases h : sat constraints <;> simp [Outcome.isSat, h]

end Verdicts

/-! ## Questions about a problem -/

namespace Problem

variable {C A ι : Type} {problem : Problem C} {positions : List Nat}

/-- A question about positions of the problem is a single exchange. -/
theorem yields_ask {exchanges : List (Exchange C A ι)} {result : Except OracleError (Outcome A)}
    (hpositions : ∀ position ∈ positions, position < problem.soft.length)
    (h : (problem.ask positions).run.Yields exchanges result) :
    exchanges = [⟨.solve (problem.select positions), .ok result⟩] := by
  rw [ask_eq_solve problem hpositions] at h
  exact Dialogue.Yields.single h

theorem answered_of_yields_ask {exchanges : List (Exchange C A ι)} {outcome : Outcome A}
    (hpositions : ∀ position ∈ positions, position < problem.soft.length)
    (h : (problem.ask positions).run.Yields exchanges (.ok outcome)) :
    Answered exchanges (problem.select positions) outcome.isSat := by
  rw [yields_ask hpositions h]
  exact ⟨outcome, rfl, by simp⟩

theorem failed_of_yields_ask {exchanges : List (Exchange C A ι)} {error : OracleError}
    (hpositions : ∀ position ∈ positions, position < problem.soft.length)
    (h : (problem.ask positions).run.Yields exchanges (.error error)) :
    Failed exchanges error := by
  rw [yields_ask hpositions h]
  exact ⟨problem.select positions, by simp⟩

theorem asks_ask {P : Question C ι → Prop}
    (hpositions : ∀ position ∈ positions, position < problem.soft.length)
    (hP : P (.solve (problem.select positions))) :
    (problem.ask positions : Inquiry C A ι OracleError (Outcome A)).run.Asks P := by
  rw [ask_eq_solve problem hpositions]
  exact ⟨hP, fun answer => trivial⟩

end Problem

end Infeasibility
