import Infeasibility.Proofs.FiniteDomain.Blocks
import Infeasibility.Proofs.FiniteDomain.Indicators
import Infeasibility.Proofs.FiniteDomain.Optimization

/-! # Reified constraints

A search with indicators has a block of assignments for each assignment of a search without them:
one for each choice of the indicators that are to be true. Of these choices the best is to have
just the indicators of the true constraints, and a choice of an indicator whose constraint is an
error is an error. -/

namespace Infeasibility.FiniteDomain

/-! ## Choices of positions -/

section Choices

variable {f g : Nat → Bool} {count : Nat}

theorem count_map_range_le : ((List.range count).map f).count true ≤ count := by
  simpa using List.count_le_length (a := true) (l := (List.range count).map f)

/-- A choice that leaves out a position does not reach the full number. -/
theorem count_map_range_lt {position : Nat} (hlt : position < count) (hfalse : f position = false) :
    ((List.range count).map f).count true < count := by
  have hne : ((List.range count).map f).count true ≠ ((List.range count).map f).length := by
    rw [ne_eq, List.count_eq_length]
    intro hall
    cases (hall (f position) (List.mem_map_of_mem (List.mem_range.mpr hlt))).trans hfalse
  have hle : ((List.range count).map f).count true ≤ count := count_map_range_le
  rw [List.length_map, List.length_range] at hne
  omega

/-- A choice within another one is the same or makes less. -/
theorem map_range_eq_or_count_lt (h : ∀ position < count, f position → g position) :
    (List.range count).map f = (List.range count).map g ∨
      ((List.range count).map f).count true < ((List.range count).map g).count true := by
  induction count with
  | zero => exact .inl rfl
  | succ count ih =>
      have hlast := h count (Nat.lt_succ_self count)
      have hle : [f count].count true ≤ [g count].count true := by
        cases hf : f count with
        | false => simp
        | true => simp [hlast hf]
      rw [List.range_succ, List.map_append, List.map_append, List.count_append, List.count_append,
        List.map_singleton, List.map_singleton]
      rcases ih fun position hlt => h position (hlt.trans (Nat.lt_succ_self count)) with heq | hlt
      · rw [heq]
        by_cases hsame : f count = g count
        · exact .inl (by rw [hsame])
        · have hf : f count = false := by
            by_contra hf
            exact hsame ((eq_true_of_ne_false hf).trans (hlast (eq_true_of_ne_false hf)).symm)
          have hg : g count = true := by
            by_contra hg
            exact hsame (hf.trans (eq_false_of_ne_true hg).symm)
          right
          simp [hf, hg]
      · right
        omega

/-- A list of results is given by a function of their positions. -/
theorem exists_truths {α : Type} {R : α → Bool → Prop} {xs : List α} {truths : List Bool}
    (h : List.Forall₂ R xs truths) :
    ∃ g : Nat → Bool, truths = (List.range xs.length).map g ∧
      ∀ position, ∀ hlt : position < xs.length, R xs[position] (g position) := by
  have hlength := h.length_eq
  refine ⟨fun position => truths.getD position false, ?_, fun position hlt => ?_⟩
  · refine List.ext_getElem (by simp [hlength]) fun position hlt _ => ?_
    simp [List.getD_eq_getElem?_getD, hlt]
  · have hlt' : position < truths.length := hlength ▸ hlt
    have hposition := h.get hlt hlt'
    simpa [List.getD_eq_getElem?_getD, hlt'] using hposition

end Choices

/-! ## Assignments of indicators -/

/-- The second assignment extends the first one by a choice of indicators. -/
structure Extends (model : Model) (count : Nat) (f : Nat → Bool) (a b : Assignment) : Prop where
  admits : (model.withIndicators count).Admits b
  value?_eq : ∀ v < model.size, b.value? v = a.value? v
  literal : ∀ position < count, b.eval (.literal (model.size + position)) = .ok (f position)

/-- The literals of consecutive indicators. -/
def literals (first count : Nat) : List Constraint :=
  (List.range' first count).map .literal

/-- The view of an assignment of indicators: the links join the hard constraints, and what counts
are the indicators. -/
def Solver.lookLinked (solver : Solver) (hard soft : List Constraint) (b : Assignment) : View :=
  (solver.withIndicators soft.length).look (hard ++ links solver.model.size soft)
    (literals solver.model.size soft.length) b

/-- The variables of a link are the indicator and those of the constraint. -/
theorem declares_link {model : Model} {soft : List Constraint}
    (hsoft : ∀ c ∈ soft, model.Declares c.vars) {link : Constraint}
    (h : link ∈ links model.size soft) :
    (model.withIndicators soft.length).Declares link.vars := by
  obtain ⟨position, hlt, rfl⟩ := mem_links_iff.mp h
  intro v hv
  rw [Model.size_withIndicators]
  rcases List.mem_cons.mp hv with rfl | hv
  · exact Nat.add_lt_add_left hlt _
  · exact Nat.lt_add_right _ (hsoft _ (List.getElem_mem hlt) v hv)

namespace Extends

variable {solver : Solver} {hard soft : List Constraint} {f : Nat → Bool} {a b : Assignment}

theorem eval_eq (h : Extends solver.model soft.length f a b) {c : Constraint}
    (hc : solver.model.Declares c.vars) : b.eval c = a.eval c :=
  Assignment.eval_congr fun v hv => h.value?_eq v (hc v hv)

/-- A link is as its constraint if the indicator is chosen, and otherwise true. -/
theorem eval_link (h : Extends solver.model soft.length f a b)
    (hsoft : ∀ c ∈ soft, solver.model.Declares c.vars) {position : Nat}
    (hlt : position < soft.length) :
    b.eval (.implies (.literal (solver.model.size + position)) soft[position]) =
      if f position then a.eval soft[position] else .ok true := by
  rw [Assignment.eval, h.literal position hlt, h.eval_eq (hsoft _ (List.getElem_mem hlt))]
  cases f position <;> rfl

theorem mapM_literals (h : Extends solver.model soft.length f a b) (other : Solver) :
    (literals solver.model.size soft.length).mapM (other.holds b) =
      .ok ((List.range soft.length).map f) := by
  rw [mapM_eq_ok_iff, literals, List.range'_eq_map_range, List.map_map]
  rw [List.forall₂_map_left_iff, List.forall₂_map_right_iff, List.forall₂_same]
  intro position hmem
  exact Solver.holds_eq_ok_iff.mpr (h.literal position (List.mem_range.mp hmem))

/-- The links decide about an assignment that meets the hard constraints: a chosen constraint is
an error, or is false, or all of them are true. -/
theorem look_cases (h : Extends solver.model soft.length f a b)
    (hhard : ∀ c ∈ hard, solver.model.Declares c.vars)
    (hsoft : ∀ c ∈ soft, solver.model.Declares c.vars)
    (hmeets : ∀ c ∈ hard, a.eval c = .ok true) {view : View}
    (hview : solver.lookLinked hard soft b = view) :
    (∃ halt, view = .error halt ∧ halt.IsFailure ∧
      ∃ position, ∃ hlt : position < soft.length, f position = true ∧
        ∃ error, a.eval soft[position] = .error error) ∨
    (view = .ok none ∧ ∃ position, ∃ hlt : position < soft.length, f position = true ∧
      a.eval soft[position] = .ok false) ∨
    (view = .ok (some ⟨(List.range soft.length).map f, b⟩) ∧
      ∀ position, ∀ hlt : position < soft.length, f position = true →
        a.eval soft[position] = .ok true) := by
  have hmeets' : ∀ c ∈ hard, b.eval c = .ok true := by
    intro c hc
    rw [h.eval_eq (hhard c hc), hmeets c hc]
  rw [Solver.lookLinked, Solver.look_append hmeets', Solver.look] at hview
  split at hview
  · rename_i halt herror
    subst hview
    obtain ⟨link, hmem, hholds⟩ := Solver.allHold_eq_error herror
    obtain ⟨error, heval, -⟩ := Solver.holds_eq_error hholds
    refine .inl ⟨halt, rfl, Solver.allHold_isFailure h.admits ?_ herror, ?_⟩
    · exact fun link hlink => declares_link hsoft hlink
    · obtain ⟨position, hlt, rfl⟩ := mem_links_iff.mp hmem
      rw [h.eval_link hsoft hlt] at heval
      split at heval
      · exact ⟨position, hlt, ‹_›, error, heval⟩
      · cases heval
  · rename_i hfalse
    subst hview
    obtain ⟨link, hmem, heval⟩ := Solver.allHold_eq_false hfalse
    obtain ⟨position, hlt, rfl⟩ := mem_links_iff.mp hmem
    rw [h.eval_link hsoft hlt] at heval
    split at heval
    · exact .inr (.inl ⟨rfl, position, hlt, ‹_›, heval⟩)
    · cases heval
  · rename_i htrue
    rw [h.mapM_literals] at hview
    subst hview
    refine .inr (.inr ⟨rfl, fun position hlt hchosen => ?_⟩)
    have heval := Solver.allHold_eq_true_iff.mp htrue _ (mem_links_iff.mpr ⟨position, hlt, rfl⟩)
    rwa [h.eval_link hsoft hlt, if_pos hchosen] at heval

end Extends

/-! ## Blocks of choices -/

/-- All assignments of a block extend the given one by choices, and every choice is made. -/
structure IsBlock (model : Model) (count : Nat) (a : Assignment) (width : Nat)
    (block : Nat → Assignment) : Prop where
  choice : ∀ digit < width, ∃ f, Extends model count f a (block digit)
  complete : ∀ f, ∃ digit < width, Extends model count f a (block digit)

namespace IsBlock

variable {solver : Solver} {hard soft : List Constraint} {a : Assignment} {width : Nat}
  {block : Nat → Assignment}

/-- An error of a hard constraint is an error of every choice. -/
theorem mirrors_of_hard_error (h : IsBlock solver.model soft.length a width block)
    (hhard : ∀ c ∈ hard, solver.model.Declares c.vars) (ha : solver.model.Admits a) {halt : Halt}
    (herror : solver.allHold a hard = .error halt) :
    Mirrors soft.length width (fun digit => solver.lookLinked hard soft (block digit))
      (.error halt) := by
  have hview : ∀ digit < width, ∃ halt, halt.IsFailure ∧
      solver.lookLinked hard soft (block digit) = .error halt := by
    intro digit hdigit
    obtain ⟨f, hextends⟩ := h.choice digit hdigit
    rcases hother : (solver.withIndicators soft.length).allHold (block digit) hard with
      halt | truth
    · refine ⟨halt, Solver.allHold_isFailure hextends.admits ?_ hother,
        Solver.look_append_of_error hother⟩
      intro c hc v hv
      exact (Nat.lt_add_right _ (hhard c hc v hv)).trans_eq Model.size_withIndicators.symm
    · rw [Solver.allHold_eq_ok_congr fun c hc => hextends.eval_eq (hhard c hc)] at hother
      cases herror.symm.trans hother
  obtain ⟨digit, hdigit, -⟩ := h.complete fun _ => true
  refine .failure (Solver.allHold_isFailure ha hhard herror) ⟨digit, hdigit, ?_⟩
    fun digit hdigit => .inr (hview digit hdigit)
  obtain ⟨halt, -, heq⟩ := hview digit hdigit
  exact heq ▸ View.not_passes_error

/-- An error of a soft constraint is an error where just its indicator is chosen, and no choice
without an error can then be of all indicators. -/
theorem mirrors_of_error (h : IsBlock solver.model soft.length a width block)
    (hhard : ∀ c ∈ hard, solver.model.Declares c.vars)
    (hsoft : ∀ c ∈ soft, solver.model.Declares c.vars)
    (hmeets : ∀ c ∈ hard, a.eval c = .ok true) {halt : Halt} (hhalt : halt.IsFailure)
    {position : Nat} (hlt : position < soft.length) {error : EvalError}
    (herror : a.eval soft[position] = .error error) :
    Mirrors soft.length width (fun digit => solver.lookLinked hard soft (block digit))
      (.error halt) := by
  refine .failure hhalt ?_ fun digit hdigit => ?_
  · obtain ⟨digit, hdigit, hextends⟩ := h.complete (· = position)
    refine ⟨digit, hdigit, ?_⟩
    rcases hextends.look_cases hhard hsoft hmeets rfl with
      ⟨halt, hview, -⟩ | ⟨-, other, hother, hchosen, hfalse⟩ | ⟨-, htrue⟩
    · exact hview ▸ View.not_passes_error
    · obtain rfl : other = position := by simpa using hchosen
      cases hfalse.symm.trans herror
    · cases (htrue position hlt (by simp)).symm.trans herror
  · obtain ⟨f, hextends⟩ := h.choice digit hdigit
    rcases hextends.look_cases hhard hsoft hmeets rfl with
      ⟨halt, hview, hfailure, -⟩ | ⟨hview, -⟩ | ⟨hview, htrue⟩
    · exact .inr ⟨halt, hfailure, hview⟩
    · exact .inl (hview ▸ View.passes_none)
    · have hfalse : f position = false := by
        by_contra hchosen
        cases (htrue position hlt (eq_true_of_ne_false hchosen)).symm.trans herror
      exact .inl (hview ▸ View.passes_some_iff.mpr (count_map_range_lt hlt hfalse))

/-- The best choice is that of the indicators of all true constraints. -/
theorem mirrors_of_truths (h : IsBlock solver.model soft.length a width block)
    (hhard : ∀ c ∈ hard, solver.model.Declares c.vars)
    (hsoft : ∀ c ∈ soft, solver.model.Declares c.vars)
    (hmeets : ∀ c ∈ hard, a.eval c = .ok true) {g : Nat → Bool}
    (hg : ∀ position, ∀ hlt : position < soft.length, a.eval soft[position] = .ok (g position)) :
    Mirrors soft.length width (fun digit => solver.lookLinked hard soft (block digit))
      (.ok (some ⟨(List.range soft.length).map g, a⟩)) := by
  refine .candidate count_map_range_le ?_ fun digit hdigit => ?_
  · obtain ⟨digit, hdigit, hextends⟩ := h.complete g
    rcases hextends.look_cases hhard hsoft hmeets rfl with
      ⟨-, -, -, other, hother, -, error, herror⟩ | ⟨-, other, hother, hchosen, hfalse⟩ | ⟨hview, -⟩
    · cases herror.symm.trans (hg other hother)
    · rw [hg other hother, hchosen] at hfalse
      cases hfalse
    · exact ⟨digit, hdigit, _, hview, rfl⟩
  · obtain ⟨f, hextends⟩ := h.choice digit hdigit
    rcases hextends.look_cases hhard hsoft hmeets rfl with
      ⟨-, -, -, other, hother, -, error, herror⟩ | ⟨hview, -⟩ | ⟨hview, htrue⟩
    · cases herror.symm.trans (hg other hother)
    · exact .inl hview
    · refine .inr ⟨_, hview, map_range_eq_or_count_lt fun position hlt hchosen => ?_⟩
      exact Except.ok.inj ((hg position hlt).symm.trans (htrue position hlt hchosen))

/-- The views of all choices mirror the view without indicators. -/
theorem mirrors_look (h : IsBlock solver.model soft.length a width block)
    (hhard : ∀ c ∈ hard, solver.model.Declares c.vars)
    (hsoft : ∀ c ∈ soft, solver.model.Declares c.vars) (ha : solver.model.Admits a) :
    Mirrors soft.length width (fun digit => solver.lookLinked hard soft (block digit))
      (solver.look hard soft a) := by
  rw [Solver.look]
  split
  · exact h.mirrors_of_hard_error hhard ha ‹_›
  · rename_i hfalse
    refine .nothing fun digit hdigit => ?_
    obtain ⟨f, hextends⟩ := h.choice digit hdigit
    refine Solver.look_append_of_false ?_
    rwa [Solver.allHold_eq_ok_congr fun c hc => hextends.eval_eq (hhard c hc)]
  · rename_i htrue
    have hmeets := Solver.allHold_eq_true_iff.mp htrue
    split
    · rename_i halt herror
      obtain ⟨c, hc, hholds⟩ := exists_of_mapM_eq_error herror
      obtain ⟨error, heval, -⟩ := Solver.holds_eq_error hholds
      obtain ⟨position, hlt, rfl⟩ := List.mem_iff_getElem.mp hc
      exact h.mirrors_of_error hhard hsoft hmeets
        (Solver.holds_isFailure ha (hsoft _ hc) hholds) hlt heval
    · rename_i satisfied hsatisfied
      obtain ⟨g, rfl, hg⟩ := exists_truths (mapM_eq_ok_iff.mp hsatisfied)
      exact h.mirrors_of_truths hhard hsoft hmeets fun position hlt =>
        Solver.holds_eq_ok_iff.mp (hg position hlt)

end IsBlock

end Infeasibility.FiniteDomain
