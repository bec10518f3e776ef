import Infeasibility.Oracle.Dialogue

/-! # Traces of dialogues

A dialogue is looked at in two ways. `Yields` relates it to the exchanges of a run and to the
value at its end; `Asks` bounds what it asks, whatever the answers are. A run with an oracle
connects the two: it yields its value after the exchanges of its transcript. -/

namespace Infeasibility

/-- A misuse in the first of two steps skips the second one. -/
theorem Step.bind_apply {σ α β : Type} (x : Step σ α) (f : α → Step σ β) (state : σ) :
    (x >>= f) state =
      match x state with
      | (.ok value, state') => f value state'
      | (.error misuse, state') => (.error misuse, state') := by
  change ExceptT.bindCont f (x state).1 (x state).2 = _
  rcases x state with ⟨misuse | value, state'⟩ <;> rfl

namespace Dialogue

variable {σ C A ι α β : Type}

/-! ## Exchanges that lead to a value -/

/-- The dialogue ends with the value once its questions have been answered as in the exchanges. -/
inductive Yields : Dialogue C A ι α → List (Exchange C A ι) → α → Prop where
  | done (value : α) : Yields (.done value) [] value
  | ask {question : Question C ι} {next : question.Answer A → Dialogue C A ι α}
      {answer : question.Answer A} {exchanges : List (Exchange C A ι)} {value : α} :
      Yields (next answer) exchanges value →
      Yields (.ask question next) (⟨question, .ok answer⟩ :: exchanges) value

@[simp] theorem yields_done_iff {value result : α} {exchanges : List (Exchange C A ι)} :
    (done value).Yields exchanges result ↔ exchanges = [] ∧ result = value := by
  constructor
  · intro h
    cases h
    exact ⟨rfl, rfl⟩
  · rintro ⟨rfl, rfl⟩
    exact .done _

@[simp] theorem not_yields_abandon {misuse : Misuse} {exchanges : List (Exchange C A ι)}
    {value : α} : ¬ (abandon misuse : Dialogue C A ι α).Yields exchanges value := by
  intro h
  cases h

theorem yields_ask_iff {question : Question C ι} {next : question.Answer A → Dialogue C A ι α}
    {exchanges : List (Exchange C A ι)} {value : α} :
    (ask question next).Yields exchanges value ↔
      ∃ answer rest, exchanges = ⟨question, .ok answer⟩ :: rest ∧
        (next answer).Yields rest value := by
  constructor
  · intro h
    cases h with
    | ask h => exact ⟨_, _, rfl, h⟩
  · rintro ⟨answer, rest, rfl, h⟩
    exact .ask h

/-- A single question is a single exchange. -/
theorem Yields.single {question : Question C ι} {exchanges : List (Exchange C A ι)}
    {answer : question.Answer A} (h : (Dialogue.ask question .done).Yields exchanges answer) :
    exchanges = [⟨question, .ok answer⟩] := by
  obtain ⟨given, rest, rfl, hrest⟩ := yields_ask_iff.mp h
  obtain ⟨rfl, rfl⟩ := yields_done_iff.mp hrest
  rfl

/-- The exchanges of a sequence split where its first part ends. -/
theorem yields_bind_iff {x : Dialogue C A ι α} {f : α → Dialogue C A ι β}
    {exchanges : List (Exchange C A ι)} {value : β} :
    (x >>= f).Yields exchanges value ↔
      ∃ first second middle, exchanges = first ++ second ∧ x.Yields first middle ∧
        (f middle).Yields second value := by
  induction x generalizing exchanges with
  | done middle =>
      constructor
      · intro h
        exact ⟨[], exchanges, middle, rfl, .done middle, h⟩
      · rintro ⟨first, second, result, rfl, hx, hf⟩
        obtain ⟨rfl, rfl⟩ := yields_done_iff.mp hx
        exact hf
  | abandon misuse => simp
  | ask question next ih =>
      simp only [ask_bind, yields_ask_iff, ih]
      constructor
      · rintro ⟨answer, rest, rfl, first, second, middle, rfl, hx, hf⟩
        exact ⟨_ :: first, second, middle, rfl, ⟨answer, first, rfl, hx⟩, hf⟩
      · rintro ⟨_, second, middle, rfl, ⟨answer, first, rfl, hx⟩, hf⟩
        exact ⟨answer, first ++ second, rfl, first, second, middle, rfl, hx, hf⟩

/-! ## What is asked, whatever the answers are -/

/-- Every question has the property, and the dialogue is never abandoned. -/
def Asks (P : Question C ι → Prop) : Dialogue C A ι α → Prop
  | done _ => True
  | abandon _ => False
  | ask question next => P question ∧ ∀ answer, (next answer).Asks P

@[simp] theorem asks_done (P : Question C ι → Prop) (value : α) :
    (done value : Dialogue C A ι α).Asks P :=
  trivial

theorem Asks.imp {P Q : Question C ι → Prop} {x : Dialogue C A ι α} (hx : x.Asks P)
    (h : ∀ question, P question → Q question) : x.Asks Q := by
  induction x with
  | done value => trivial
  | abandon misuse => exact hx
  | ask question next ih => exact ⟨h question hx.1, fun answer => ih answer (hx.2 answer)⟩

/-- The second part of a sequence is only asked after a value that the first part yields. -/
theorem Asks.bind {P : Question C ι → Prop} {x : Dialogue C A ι α} {f : α → Dialogue C A ι β}
    (hx : x.Asks P) (hf : ∀ exchanges value, x.Yields exchanges value → (f value).Asks P) :
    (x >>= f).Asks P := by
  induction x with
  | done value => exact hf [] value (.done value)
  | abandon misuse => exact hx
  | ask question next ih =>
      refine ⟨hx.1, fun answer => ih answer (hx.2 answer) ?_⟩
      intro exchanges value h
      exact hf (_ :: exchanges) value (.ask h)

theorem Yields.question_of_asks {P : Question C ι → Prop} {x : Dialogue C A ι α}
    {exchanges : List (Exchange C A ι)} {value : α} (h : x.Yields exchanges value)
    (hx : x.Asks P) : ∀ exchange ∈ exchanges, P exchange.question := by
  induction h with
  | done value => simp
  | @ask question next answer exchanges value h ih =>
      exact List.forall_mem_cons.mpr ⟨hx.1, ih (hx.2 answer)⟩

/-! ## Runs with an oracle -/

variable {oracle : Oracle σ C A ι}

theorem run_ask_of_ok {question : Question C ι} {next : question.Answer A → Dialogue C A ι α}
    {answer : question.Answer A} {state state' : σ}
    (h : oracle.answer question state = (.ok answer, state')) :
    (ask question next).run oracle state = (next answer).run oracle state' := by
  rw [run, Step.bind_apply, h]

theorem run_ask_of_error {question : Question C ι} {next : question.Answer A → Dialogue C A ι α}
    {misuse : Misuse} {state state' : σ}
    (h : oracle.answer question state = (.error misuse, state')) :
    (ask question next).run oracle state = (.error misuse, state') := by
  rw [run, Step.bind_apply, h]

/-- A run that no misuse cuts short yields its value after the exchanges of the transcript. -/
theorem yields_of_run {x : Dialogue C A ι α} {state : σ} {value : α}
    (h : (x.run oracle state).1 = .ok value) : x.Yields (x.transcript oracle state) value := by
  induction x generalizing state with
  | done result =>
      have hvalue : result = value := Except.ok.inj h
      subst hvalue
      exact .done result
  | abandon misuse => cases h
  | ask question next ih =>
      rw [transcript]
      rcases hanswer : oracle.answer question state with ⟨answer, state'⟩
      cases answer with
      | error misuse =>
          rw [run_ask_of_error hanswer] at h
          cases h
      | ok answer =>
          rw [run_ask_of_ok hanswer] at h
          exact .ask (ih answer h)

/-- Each exchange of a transcript took place in a state that the exchanges before it allow. -/
theorem answer_of_mem_transcript {P : Question C ι → Prop} {I : σ → Prop}
    {x : Dialogue C A ι α} (hx : x.Asks P)
    (hI : ∀ question state, P question → I state → I (oracle.answer question state).2)
    {state : σ} (hstate : I state) :
    ∀ exchange ∈ x.transcript oracle state, P exchange.question ∧
      ∃ state, I state ∧ (oracle.answer exchange.question state).1 = exchange.answer := by
  induction x generalizing state with
  | done value => simp [transcript]
  | abandon misuse => simp [transcript]
  | ask question next ih =>
      have hnext := hI question state hx.1 hstate
      rw [transcript]
      rcases hanswer : oracle.answer question state with ⟨answer, state'⟩
      rw [hanswer] at hnext
      cases answer with
      | error misuse => simpa using ⟨hx.1, state, hstate, congrArg Prod.fst hanswer⟩
      | ok answer =>
          intro exchange hmem
          rcases List.mem_cons.mp hmem with rfl | hmem
          · exact ⟨hx.1, state, hstate, congrArg Prod.fst hanswer⟩
          · exact ih answer (hx.2 answer) hnext exchange hmem

/-- What no question changes is the same after a run. -/
theorem snd_run_of_asks {P : Question C ι → Prop} {I : σ → Prop} {x : Dialogue C A ι α}
    (hx : x.Asks P)
    (hI : ∀ question state, P question → I state → I (oracle.answer question state).2)
    {state : σ} (hstate : I state) : I (x.run oracle state).2 := by
  induction x generalizing state with
  | done value => exact hstate
  | abandon misuse => exact hstate
  | ask question next ih =>
      have hnext := hI question state hx.1 hstate
      rcases hanswer : oracle.answer question state with ⟨misuse | answer, state'⟩
      · rw [hanswer] at hnext
        rw [run_ask_of_error hanswer]
        exact hnext
      · rw [hanswer] at hnext
        rw [run_ask_of_ok hanswer]
        exact ih answer (hx.2 answer) hnext

/-- An oracle that never gives up answers every question of a dialogue. -/
theorem answered_of_mem_transcript
    (h : ∀ question state, ∃ answer state', oracle.answer question state = (.ok answer, state'))
    (x : Dialogue C A ι α) (state : σ) :
    ∀ exchange ∈ x.transcript oracle state, ∃ answer, exchange.answer = .ok answer := by
  induction x generalizing state with
  | done value => simp [transcript]
  | abandon misuse => simp [transcript]
  | ask question next ih =>
      obtain ⟨answer, state', hanswer⟩ := h question state
      rw [transcript, hanswer]
      exact List.forall_mem_cons.mpr ⟨⟨answer, rfl⟩, ih answer state'⟩

/-- A dialogue comes to its end if its questions are no misuse of the oracle. -/
theorem exists_run_eq_ok {P : Question C ι → Prop} {I : σ → Prop} {x : Dialogue C A ι α}
    (hx : x.Asks P)
    (hI : ∀ question state, P question → I state →
      ∃ answer state', oracle.answer question state = (.ok answer, state') ∧ I state')
    {state : σ} (hstate : I state) :
    ∃ value state', x.run oracle state = (.ok value, state') ∧ I state' := by
  induction x generalizing state with
  | done value => exact ⟨value, state, rfl, hstate⟩
  | abandon misuse => exact hx.elim
  | ask question next ih =>
      obtain ⟨answer, state', hanswer, hstate'⟩ := hI question state hx.1 hstate
      rw [run_ask_of_ok hanswer]
      exact ih answer (hx.2 answer) hstate'

/-- A dialogue that is never abandoned comes to its end unless the oracle itself is misused. -/
theorem exists_run_eq_ok_of_transcript {P : Question C ι → Prop} {x : Dialogue C A ι α}
    (hx : x.Asks P) {state : σ}
    (h : ∀ exchange ∈ x.transcript oracle state, ∃ answer, exchange.answer = .ok answer) :
    ∃ value state', x.run oracle state = (.ok value, state') := by
  induction x generalizing state with
  | done value => exact ⟨value, state, rfl⟩
  | abandon misuse => exact hx.elim
  | ask question next ih =>
      rw [transcript] at h
      rcases hanswer : oracle.answer question state with ⟨misuse | answer, state'⟩
      · rw [hanswer] at h
        obtain ⟨answer, hok⟩ := h _ List.mem_cons_self
        cases hok
      · rw [hanswer] at h
        rw [run_ask_of_ok hanswer]
        exact ih answer (hx.2 answer) fun exchange hmem => h exchange (List.mem_cons_of_mem _ hmem)

/-- Two runs keep in step as long as each exchange of the first one has a property that makes the
answers in related states the same. -/
theorem run_fst_eq_of_transcript {P : Exchange C A ι → Prop} {R : σ → σ → Prop}
    (hR : ∀ question first second, R first second →
      P ⟨question, (oracle.answer question first).1⟩ →
        (oracle.answer question second).1 = (oracle.answer question first).1 ∧
          R (oracle.answer question first).2 (oracle.answer question second).2)
    {x : Dialogue C A ι α} {first second : σ} (h : R first second)
    (hP : ∀ exchange ∈ x.transcript oracle first, P exchange) :
    (x.run oracle second).1 = (x.run oracle first).1 := by
  induction x generalizing first second with
  | done value => rfl
  | abandon misuse => rfl
  | ask question next ih =>
      have hstep := hR question first second h
      rw [transcript] at hP
      rcases hfirst : oracle.answer question first with ⟨misuse | answer, first'⟩
      · rw [hfirst] at hP hstep
        obtain ⟨hsame, -⟩ := hstep (hP _ List.mem_cons_self)
        have hsecond : oracle.answer question second =
            (.error misuse, (oracle.answer question second).2) := Prod.ext hsame rfl
        rw [run_ask_of_error hfirst, run_ask_of_error hsecond]
      · rw [hfirst] at hP hstep
        obtain ⟨hsame, hnext⟩ := hstep (hP _ List.mem_cons_self)
        have hsecond : oracle.answer question second =
            (.ok answer, (oracle.answer question second).2) := Prod.ext hsame rfl
        rw [run_ask_of_ok hfirst, run_ask_of_ok hsecond]
        exact ih answer hnext fun exchange hmem => hP exchange (List.mem_cons_of_mem _ hmem)

/-- States that make no difference to the answers make no difference to the conclusion. -/
theorem run_fst_eq_of_related {P : Question C ι → Prop} {R : σ → σ → Prop}
    {x : Dialogue C A ι α} (hx : x.Asks P)
    (hR : ∀ question first second, P question → R first second →
      (oracle.answer question first).1 = (oracle.answer question second).1 ∧
        R (oracle.answer question first).2 (oracle.answer question second).2)
    {first second : σ} (h : R first second) :
    (x.run oracle first).1 = (x.run oracle second).1 := by
  induction x generalizing first second with
  | done value => rfl
  | abandon misuse => rfl
  | ask question next ih =>
      obtain ⟨hanswer, hnext⟩ := hR question first second hx.1 h
      rcases hfirst : oracle.answer question first with ⟨answer, first'⟩
      rcases hsecond : oracle.answer question second with ⟨answer', second'⟩
      rw [hfirst, hsecond] at hanswer hnext
      obtain rfl : answer = answer' := hanswer
      cases answer with
      | error misuse => rw [run_ask_of_error hfirst, run_ask_of_error hsecond]
      | ok answer =>
          rw [run_ask_of_ok hfirst, run_ask_of_ok hsecond]
          exact ih answer (hx.2 answer) hnext

end Dialogue

end Infeasibility
