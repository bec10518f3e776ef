import Infeasibility.FiniteDomain.Solver
import Infeasibility.Proofs.FiniteDomain.Enumeration

/-! # The search for an optimum

A search for an optimum goes through numbered views: an error, nothing, or a candidate. It ends at
the first view that is an error or a candidate that reaches the goal. If there is no such view and
the limit permits, it ends with the first of the best candidates. -/

namespace Infeasibility.FiniteDomain

open Solver

/-- What there is to see at a number. -/
abbrev View := Except Halt (Option Candidate)

namespace View

/-! ## Views where a search goes on -/

/-- The search goes on after the view. -/
def Passes (goal : Nat) (view : View) : Prop :=
  ∃ seen, view = .ok seen ∧ ∀ c ∈ seen, c.count < goal

/-- The search goes on after all views below a bound. -/
def AllPass (goal : Nat) (views : Nat → View) (bound : Nat) : Prop :=
  ∀ number < bound, (views number).Passes goal

@[simp] theorem not_passes_error {goal : Nat} {halt : Halt} : ¬ Passes goal (.error halt) := by
  rintro ⟨seen, hseen, -⟩
  cases hseen

@[simp] theorem passes_none {goal : Nat} : Passes goal (.ok none) :=
  ⟨none, rfl, by simp⟩

@[simp] theorem passes_some_iff {goal : Nat} {c : Candidate} :
    Passes goal (.ok (some c)) ↔ c.count < goal := by
  constructor
  · rintro ⟨seen, hseen, hlt⟩
    cases hseen
    exact hlt c rfl
  · intro hlt
    exact ⟨some c, rfl, by simpa using hlt⟩

theorem not_passes_of_count_eq {goal : Nat} {c : Candidate} (h : c.count = goal) :
    ¬ Passes goal (.ok (some c)) := by
  simp [h]

theorem AllPass.succ {goal number : Nat} {views : Nat → View} (h : AllPass goal views number)
    (hview : (views number).Passes goal) : AllPass goal views (number + 1) :=
  Nat.forall_lt_succ_right.mpr ⟨h, hview⟩

/-! ## The first of the best candidates -/

/-- No candidate below the bound is better, and no earlier one is as good. -/
def Leads (views : Nat → View) (bound : Nat) : Option Candidate → Prop
  | none => ∀ number < bound, ∀ c, views number ≠ .ok (some c)
  | some best => ∃ first < bound, views first = .ok (some best) ∧
      ∀ number < bound, ∀ c, views number = .ok (some c) →
        c.count ≤ best.count ∧ (number < first → c.count < best.count)

variable {views : Nat → View} {number : Nat} {best : Option Candidate}

theorem Leads.of_none (h : Leads views number best) (hview : views number = .ok none) :
    Leads views (number + 1) best := by
  cases best with
  | none => exact Nat.forall_lt_succ_right.mpr ⟨h, fun c => by simp [hview]⟩
  | some best =>
      obtain ⟨first, hfirst, hbest, hle⟩ := h
      refine ⟨first, hfirst.trans (Nat.lt_succ_self _), hbest, ?_⟩
      exact Nat.forall_lt_succ_right.mpr ⟨hle, fun c => by simp [hview]⟩

theorem Leads.better (h : Leads views number best) {c : Candidate}
    (hview : views number = .ok (some c)) :
    Leads views (number + 1) (some (Candidate.better best c)) := by
  have heq : ∀ d, views number = .ok (some d) → d = c := by
    intro d hd
    exact Option.some.inj (Except.ok.inj (hd.symm.trans hview))
  cases best with
  | none =>
      refine ⟨number, Nat.lt_succ_self _, hview, Nat.forall_lt_succ_right.mpr ⟨?_, ?_⟩⟩
      · intro earlier hlt d hd
        exact absurd hd (h earlier hlt d)
      · intro d hd
        simp [heq d hd, Candidate.better]
  | some best =>
      obtain ⟨first, hfirst, hbest, hle⟩ := h
      rw [Candidate.better]
      by_cases hcount : best.count < c.count
      · rw [if_pos hcount]
        refine ⟨number, Nat.lt_succ_self _, hview, Nat.forall_lt_succ_right.mpr ⟨?_, ?_⟩⟩
        · intro earlier hlt d hd
          have hless := (hle earlier hlt d hd).1
          exact ⟨by omega, fun _ => by omega⟩
        · intro d hd
          simp [heq d hd]
      · rw [if_neg hcount]
        refine ⟨first, hfirst.trans (Nat.lt_succ_self _), hbest,
          Nat.forall_lt_succ_right.mpr ⟨hle, ?_⟩⟩
        intro d hd
        rw [heq d hd]
        exact ⟨by omega, fun hlt => absurd hfirst (Nat.lt_asymm hlt)⟩

end View

/-! ## How the search ends -/

open View

/-- A visit that has a view, and knows the leading candidate of those before. -/
def climb (goal : Nat) (best : Option Candidate) : View → Except Halt (ForInStep (Option Candidate))
  | .error halt => .error halt
  | .ok none => .ok (.yield best)
  | .ok (some c) =>
    if c.count = goal then
      .ok (.done (some (Candidate.better best c)))
    else
      .ok (.yield (some (Candidate.better best c)))

/-- How a search through a number of views can end, where more than `limit` are too many. -/
inductive AscentEnds (goal : Nat) (views : Nat → View) (total limit : Nat) : View → Prop where
  | halted {number halt} : number < total → number < limit → AllPass goal views number →
      views number = .error halt → AscentEnds goal views total limit (.error halt)
  | reached {number best} : number < total → number < limit → AllPass goal views number →
      views number = .ok (some best) → best.count = goal →
      AscentEnds goal views total limit (.ok (some best))
  | exhausted {best} : total ≤ limit → AllPass goal views total → Leads views total best →
      AscentEnds goal views total limit (.ok best)
  | limited {text} : limit < total → AllPass goal views limit →
      AscentEnds goal views total limit (.error (.error (.resourceLimit text)))

theorem climb_eq_error {goal : Nat} {best : Option Candidate} {view : View} {halt : Halt}
    (h : climb goal best view = .error halt) : view = .error halt := by
  rcases view with halt' | _ | c
  · cases h
    rfl
  · cases h
  · rw [climb] at h
    split at h <;> cases h

theorem climb_eq_done {goal : Nat} {best result : Option Candidate} {view : View}
    (h : climb goal best view = .ok (.done result)) :
    ∃ c, view = .ok (some c) ∧ c.count = goal ∧ result = some (Candidate.better best c) := by
  rcases view with halt | _ | c
  · cases h
  · cases h
  · rw [climb] at h
    split at h
    · cases h
      exact ⟨c, rfl, ‹_›, rfl⟩
    · cases h

theorem climb_eq_yield {goal : Nat} {best next : Option Candidate} {view : View}
    (h : climb goal best view = .ok (.yield next)) :
    (view = .ok none ∧ next = best) ∨
      ∃ c, view = .ok (some c) ∧ c.count ≠ goal ∧ next = some (Candidate.better best c) := by
  rcases view with halt | _ | c
  · cases h
  · cases h
    exact .inl ⟨rfl, rfl⟩
  · rw [climb] at h
    split at h
    · cases h
    · cases h
      exact .inr ⟨c, rfl, ‹_›, rfl⟩

/-- The first candidate that reaches the goal is better than all before. -/
theorem better_eq_of_reached {goal number : Nat} {views : Nat → View} {best : Option Candidate}
    {c : Candidate} (hpass : AllPass goal views number) (hleads : Leads views number best)
    (hcount : c.count = goal) : Candidate.better best c = c := by
  cases best with
  | none => rfl
  | some best =>
      obtain ⟨first, hfirst, hbest, -⟩ := hleads
      obtain ⟨seen, hseen, hlt⟩ := hpass first hfirst
      obtain rfl : some best = seen := Except.ok.inj (hbest.symm.trans hseen)
      have hless := hlt best rfl
      rw [Candidate.better, if_pos (by omega)]

/-- An enumeration that climbs from view to view is a search for an optimum. -/
theorem ascentEnds_of_run {enumeration : Enumeration} {scope : List Var} {axes : List Axis}
    {goal : Nat} {look : Assignment → View} (haxes : enumeration.model.Spans scope axes)
    (hinterrupted : enumeration.interrupted = false)
    (hgoal : ∀ a c, look a = .ok (some c) → c.count ≤ goal) :
    AscentEnds goal (fun number => look (enumeration.model.assignment axes number))
      (volume axes) enumeration.limit
      (Prod.snd <$> enumeration.run scope none fun a best => climb goal best (look a)) := by
  let views : Nat → View := fun number => look (enumeration.model.assignment axes number)
  have hends := Enumeration.run_ends haxes none
    (fun a best => climb goal best (look a))
    (fun number best => AllPass goal views number ∧ Leads views number best)
    ⟨by simp [AllPass], by simp [Leads]⟩ (by
      rintro number best next ⟨hpass, hleads⟩ hvisit
      change climb goal best (views number) = _ at hvisit
      rcases climb_eq_yield hvisit with ⟨hview, rfl⟩ | ⟨c, hview, hne, rfl⟩
      · exact ⟨hpass.succ (by simp [hview]), hleads.of_none hview⟩
      · have hlt : c.count < goal := Nat.lt_of_le_of_ne (hgoal _ c hview) hne
        exact ⟨hpass.succ (by simpa [hview] using hlt), hleads.better hview⟩)
  generalize enumeration.run scope none (fun a best => climb goal best (look a)) = result
    at hends ⊢
  cases hends with
  | interrupted hraised => exact absurd hraised (by simp [hinterrupted])
  | halted _ hvolume hlimit hstate hvisit =>
      exact .halted hvolume hlimit hstate.1 (climb_eq_error hvisit)
  | stopped _ hvolume hlimit hstate hvisit =>
      obtain ⟨c, hview, hcount, rfl⟩ := climb_eq_done hvisit
      rw [better_eq_of_reached hstate.1 hstate.2 hcount]
      exact .reached hvolume hlimit hstate.1 hview hcount
  | exhausted _ hle hstate => exact .exhausted hle hstate.1 hstate.2
  | limited _ hlt hstate => exact .limited hlt hstate.1

section

variable {goal total limit number : Nat} {views : Nat → View} {result : View}

/-- The first view after which the search does not go on decides. -/
theorem AscentEnds.eq_view (h : AscentEnds goal views total limit result)
    (htotal : number < total) (hlimit : number < limit) (hpass : AllPass goal views number)
    (hstop : ¬ (views number).Passes goal) : result = views number := by
  cases h with
  | @halted other halt _ _ hother hhalt =>
      rcases Nat.lt_trichotomy number other with hlt | rfl | hgt
      · exact absurd (hother number hlt) hstop
      · exact hhalt.symm
      · exact absurd (hpass other hgt) (hhalt ▸ not_passes_error)
  | @reached other best _ _ hother hbest hcount =>
      rcases Nat.lt_trichotomy number other with hlt | rfl | hgt
      · exact absurd (hother number hlt) hstop
      · exact hbest.symm
      · exact absurd (hpass other hgt) (hbest ▸ not_passes_of_count_eq hcount)
  | exhausted _ hother _ => exact absurd (hother number htotal) hstop
  | limited _ hother => exact absurd (hother number hlimit) hstop

/-- A search that finds a candidate finds it at the first view that is as good. -/
theorem AscentEnds.exists_first {best : Candidate}
    (h : AscentEnds goal views total limit (.ok (some best))) :
    ∃ first < total, views first = .ok (some best) ∧
      AllPass best.count views first := by
  cases h with
  | reached htotal _ hpass hbest hcount => exact ⟨_, htotal, hbest, hcount ▸ hpass⟩
  | exhausted _ hpass hleads =>
      obtain ⟨first, hfirst, hbest, hle⟩ := hleads
      refine ⟨first, hfirst, hbest, fun number hlt => ?_⟩
      obtain ⟨seen, hseen, -⟩ := hpass number (hlt.trans hfirst)
      refine ⟨seen, hseen, ?_⟩
      rintro c rfl
      exact (hle number (hlt.trans hfirst) c hseen).2 hlt

/-- Where the search goes on after every view the leading candidate decides. -/
theorem AscentEnds.exists_leads (h : AscentEnds goal views total limit result)
    (hle : total ≤ limit) (hpass : AllPass goal views total) :
    ∃ best, result = .ok best ∧ Leads views total best := by
  cases h with
  | halted htotal _ _ hhalt => exact absurd (hpass _ htotal) (hhalt ▸ not_passes_error)
  | reached htotal _ _ hbest hcount =>
      exact absurd (hpass _ htotal) (hbest ▸ not_passes_of_count_eq hcount)
  | exhausted _ _ hleads => exact ⟨_, rfl, hleads⟩
  | limited hlt _ => exact absurd hlt (Nat.not_lt_of_le hle)

end

end Infeasibility.FiniteDomain
