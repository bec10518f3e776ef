import Infeasibility.Parameter.Basic

/-! # Access to parameters

A parameter is read and set again and again, while the setting of its environment variable changes.
The first access that succeeds decides its value. An access that fails before leaves no trace, and
whatever happens afterwards makes no difference. -/

namespace Infeasibility

variable {α : Type}

/-- The value that a setting denotes, if it is a text and this denotes one. -/
def Setting.value? (α : Type) [Textual α] : Setting → Option α
  | .text content => Textual.read? content
  | .unset | .bytes _ => none

namespace Parameter

/-! ## Readings -/

section

variable [Textual α] {parameter : Parameter α} {setting : Setting} {value : α}

/-- What a reading comes to as long as the parameter has no value. It prefers the value of the
setting to that of the default text, and warns of a setting that denotes none. -/
structure IsFirst (name default : String) (setting : Setting) (result : Except Misuse α)
    (warning? : Option Warning) : Prop where
  of_setting : ∀ value, setting.value? α = some value → result = .ok value
  of_default : setting.value? α = none →
    ∀ value, Textual.read? default = some value → result = .ok value
  of_none : setting.value? α = none → Textual.read? (α := α) default = none →
    result = .error (.invalidDefault name default)
  isSome_warning?_iff : warning?.isSome ↔ setting ≠ .unset ∧ setting.value? α = none

theorem read_of_setting (h : setting.value? α = some value) :
    parameter.read setting = .ok value := by
  cases setting with
  | text content =>
      have hread : Textual.read? content = some value := h
      simp only [read, hread]
  | unset => cases h
  | bytes raw => cases h

theorem read_of_none (h : setting.value? α = none) :
    parameter.read setting = parameter.readDefault := by
  cases setting with
  | text content =>
      have hread : Textual.read? (α := α) content = none := h
      simp only [read, hread]
  | unset => rfl
  | bytes raw => rfl

theorem isSome_warning?_iff : (parameter.warning? setting).isSome ↔
    setting ≠ .unset ∧ setting.value? α = none := by
  cases setting with
  | text content =>
      by_cases h : Textual.read? (α := α) content = none <;>
        simp [warning?, Setting.value?, Option.isSome_iff_ne_none, h]
  | unset => simp [warning?]
  | bytes raw => simp [warning?, Setting.value?]

theorem isFirst_read (parameter : Parameter α) (setting : Setting) :
    IsFirst parameter.name parameter.default setting (parameter.read setting)
      (parameter.warning? setting) := by
  constructor
  · intro value h
    exact read_of_setting h
  · intro hsetting value hdefault
    rw [read_of_none hsetting, readDefault, hdefault]
  · intro hsetting hdefault
    rw [read_of_none hsetting, readDefault, hdefault]
  · exact isSome_warning?_iff

theorem get_of_some (h : parameter.value? = some value) :
    parameter.get setting = ⟨.ok value, none, parameter⟩ := by
  rw [get, h]

theorem get_of_none (h : parameter.value? = none) :
    parameter.get setting = ⟨parameter.read setting, parameter.warning? setting,
      (parameter.read setting).toOption.elim parameter parameter.fix⟩ := by
  rw [get, h]

end

/-! ## Accesses -/

/-- What can happen to a parameter and to its environment variable. -/
inductive Access (α : Type) where
  /-- The parameter is read, by value or by reference. -/
  | read
  | set (value : α)
  /-- The environment variable gets another setting. -/
  | environment (setting : Setting)

/-- What comes of an access. -/
inductive Event (α : Type) where
  | read (result : Except Misuse α) (warning? : Option Warning)
  | set (value : α) (result : Except Misuse Unit)
  | environment

namespace Event

/-- The value that was read or set, if this succeeded. -/
def value? : Event α → Option α
  | read result _ => result.toOption
  | set value (.ok ()) => some value
  | set _ (.error _) | environment => none

/-- A reading gives the value, without a warning, and the parameter refuses to be set. -/
def Repeats (name : String) (value : α) : Event α → Prop
  | read result warning? => result = .ok value ∧ warning? = none
  | set _ result => result = .error (.alreadyInitialized name)
  | environment => True

end Event

/-- A parameter together with the present setting of its environment variable. -/
structure Situation (α : Type) where
  parameter : Parameter α
  setting : Setting

namespace Situation

variable [Textual α] {situation : Situation α} {value : α}

def access (situation : Situation α) : Access α → Event α × Situation α
  | .read =>
    let reading := situation.parameter.get situation.setting
    (.read reading.value reading.warning?, { situation with parameter := reading.parameter })
  | .set value =>
    match situation.parameter.set value with
    | .ok parameter => (.set value (.ok ()), { situation with parameter })
    | .error misuse => (.set value (.error misuse), situation)
  | .environment setting => (.environment, { situation with setting })

/-- The events of some accesses, and the situation after them. -/
def run (situation : Situation α) : List (Access α) → List (Event α) × Situation α
  | [] => ([], situation)
  | access :: rest =>
    let (event, next) := situation.access access
    let (events, final) := next.run rest
    (event :: events, final)

/-! ## Parameters that have a value -/

theorem access_of_some (h : situation.parameter.value? = some value) (access : Access α) :
    (situation.access access).1.Repeats situation.parameter.name value ∧
      (situation.access access).2.parameter = situation.parameter := by
  cases access with
  | read =>
      rw [Situation.access, get_of_some h]
      exact ⟨⟨rfl, rfl⟩, rfl⟩
  | set other =>
      have hset : situation.parameter.set other =
          .error (.alreadyInitialized situation.parameter.name) := by
        rw [Parameter.set, h]
      rw [Situation.access, hset]
      exact ⟨rfl, rfl⟩
  | environment setting => exact ⟨trivial, rfl⟩

theorem run_of_some (h : situation.parameter.value? = some value) (accesses : List (Access α)) :
    (∀ event ∈ (situation.run accesses).1, event.Repeats situation.parameter.name value) ∧
      (situation.run accesses).2.parameter = situation.parameter := by
  induction accesses generalizing situation with
  | nil => simp [run]
  | cons access rest ih =>
      obtain ⟨hevent, hnext⟩ := access_of_some h access
      have hvalue : (situation.access access).2.parameter.value? = some value := by
        rw [hnext, h]
      obtain ⟨hevents, hfinal⟩ := ih hvalue
      rw [hnext] at hevents
      exact ⟨List.forall_mem_cons.mpr ⟨hevent, hevents⟩, hfinal.trans hnext⟩

/-! ## Parameters that have no value -/

/-- The parameter takes the value of an access that succeeds, and stays the same otherwise. -/
theorem access_of_none (h : situation.parameter.value? = none) (access : Access α) :
    (situation.access access).2.parameter =
      (situation.access access).1.value?.elim situation.parameter situation.parameter.fix := by
  cases access with
  | read =>
      rw [Situation.access, get_of_none h]
      rfl
  | set value =>
      have hset : situation.parameter.set value = .ok (situation.parameter.fix value) := by
        rw [Parameter.set, h]
      rw [Situation.access, hset]
      rfl
  | environment setting => rfl

/-- The first value among the events of a run is the value of the parameter after it. -/
theorem run_of_none (h : situation.parameter.value? = none) (accesses : List (Access α)) :
    (situation.run accesses).2.parameter =
      ((situation.run accesses).1.findSome? Event.value?).elim situation.parameter
        situation.parameter.fix := by
  induction accesses generalizing situation with
  | nil => rfl
  | cons access rest ih =>
      have hnext := access_of_none h access
      change ((situation.access access).2.run rest).2.parameter =
        (((situation.access access).1 :: ((situation.access access).2.run rest).1).findSome?
          Event.value?).elim _ _
      rw [List.findSome?_cons]
      -- without a value the rest of the run starts as new, with one it changes nothing
      cases hvalue : (situation.access access).1.value? with
      | none =>
          rw [hvalue] at hnext
          have hnone : (situation.access access).2.parameter.value? = none := by
            rw [hnext]
            exact h
          rw [ih hnone, hnext]
          rfl
      | some value =>
          rw [hvalue] at hnext
          have hsome : (situation.access access).2.parameter.value? = some value := by
            rw [hnext]
            rfl
          exact (run_of_some hsome rest).2.trans hnext

/-- A new parameter has been read and set, and the setting of its environment variable has changed.
If one of these accesses has succeeded, the first that did has given the parameter its value: it is
what every further reading comes to, without a warning and whatever the setting, and no other value
can be set. If none has succeeded, the parameter is as new: it can be set, and a reading takes the
value of the current setting. If this denotes none, the reading warns of it, unless it is unset, and
takes the value of the default text, or fails without one. -/
theorem written_once (name default : String) (setting : Setting) (accesses : List (Access α)) :
    let start : Situation α := ⟨{ name, default }, setting⟩
    let first? := (start.run accesses).1.findSome? Event.value?
    let now := (start.run accesses).2
    (∀ value, first? = some value → ∀ later,
      (∀ event ∈ (now.run later).1, event.Repeats name value) ∧
        (now.run later).2.parameter = { name, default, value? := some value }) ∧
    (first? = none →
      now.parameter = { name, default } ∧
      (∀ value, now.access (.set value) =
        (.set value (.ok ()), { now with parameter := { name, default, value? := some value } })) ∧
      ∀ current, ∃ result warning?, IsFirst name default current result warning? ∧
        { now with setting := current }.access .read =
          (.read result warning?, ⟨{ name, default, value? := result.toOption }, current⟩)) := by
  intro start first? now
  have hnow : now.parameter = first?.elim start.parameter start.parameter.fix :=
    run_of_none rfl accesses
  constructor
  · intro value hfirst later
    rw [hfirst] at hnow
    have hvalue : now.parameter.value? = some value := by
      rw [hnow]
      rfl
    obtain ⟨hevents, hfinal⟩ := run_of_some hvalue later
    rw [hnow] at hevents hfinal
    exact ⟨hevents, hfinal⟩
  · intro hfirst
    have hnew : now.parameter = start.parameter := by
      rw [hnow, hfirst]
      rfl
    refine ⟨hnew, fun value => ?_, fun current => ?_⟩
    · rw [Situation.access, hnew]
      rfl
    · refine ⟨_, _, isFirst_read start.parameter current, ?_⟩
      rw [Situation.access, hnew, get_of_none rfl]
      cases start.parameter.read current <;> rfl

/-- Neither the first setting nor the default text is a number of this type: the parameter has no
value before the setting is another one, and then it keeps that. -/
theorem written_once_after_failure :
    let start : Situation UInt8 := ⟨{ name := "LIMIT", default := "many" }, .text "300"⟩
    let accesses := [.read, .environment (.text "7"), .read]
    let later := [.set 8, .environment .unset, .read]
    ((start.run [.read]).1.findSome? Event.value? = none ∧
      (start.run [.read]).2.parameter = start.parameter) ∧
    (start.run accesses).1.findSome? Event.value? = some 7 ∧
    (∀ event ∈ ((start.run accesses).2.run later).1, event.Repeats "LIMIT" 7) ∧
    ((start.run accesses).2.run later).2.parameter =
      { name := "LIMIT", default := "many", value? := some 7 } := by
  intro start accesses later
  have hfailed : (start.run [.read]).1.findSome? Event.value? = none := by decide +kernel
  have hsucceeded : (start.run accesses).1.findSome? Event.value? = some 7 := by decide +kernel
  obtain ⟨-, hnone⟩ := written_once (α := UInt8) "LIMIT" "many" (.text "300") [.read]
  obtain ⟨hsome, -⟩ := written_once (α := UInt8) "LIMIT" "many" (.text "300") accesses
  subst start
  exact ⟨⟨hfailed, (hnone hfailed).1⟩, hsucceeded, hsome 7 hsucceeded later⟩

end Situation

end Parameter

end Infeasibility
