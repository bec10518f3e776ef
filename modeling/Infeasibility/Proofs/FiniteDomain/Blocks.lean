import Infeasibility.Proofs.FiniteDomain.Ascent
import Infeasibility.Proofs.FiniteDomain.Truth

/-! # Searches block by block

One search for an optimum may refine another: where that one has a single view, it has a block of
several. If each block mirrors the view that it stands for, both searches come to the same
conclusion, unless there are more views than the limit of the finer one permits. -/

namespace Infeasibility.FiniteDomain

open Solver View

/-! ## Blocks that mirror a view -/

/-- Some of the block is an error if the view is one, and otherwise the best candidates of the
block leave the same terms unsatisfied as the view. -/
inductive Mirrors (goal width : Nat) (block : Nat → View) : View → Prop where
  | failure {halt} : halt.IsFailure → (∃ digit < width, ¬ (block digit).Passes goal) →
      (∀ digit < width, (block digit).Passes goal ∨
        ∃ halt, halt.IsFailure ∧ block digit = .error halt) →
      Mirrors goal width block (.error halt)
  | nothing : (∀ digit < width, block digit = .ok none) → Mirrors goal width block (.ok none)
  | candidate {c : Candidate} : c.count ≤ goal →
      (∃ digit < width, ∃ d, block digit = .ok (some d) ∧ d.satisfied = c.satisfied) →
      (∀ digit < width, block digit = .ok none ∨ ∃ d, block digit = .ok (some d) ∧
        (d.satisfied = c.satisfied ∨ d.count < c.count)) →
      Mirrors goal width block (.ok (some c))

section

variable {goal width : Nat} {block : Nat → View} {view : View}

theorem count_eq_of_satisfied_eq {c d : Candidate} (h : d.satisfied = c.satisfied) :
    d.count = c.count := by
  rw [Candidate.count, h, Candidate.count]

/-- A search that goes on throughout a block would go on after the view. -/
theorem Mirrors.passes (h : Mirrors goal width block view)
    (hblock : ∀ digit < width, (block digit).Passes goal) : view.Passes goal := by
  cases h with
  | failure _ hstop _ =>
      obtain ⟨digit, hdigit, hnot⟩ := hstop
      exact absurd (hblock digit hdigit) hnot
  | nothing _ => exact passes_none
  | candidate _ hsame _ =>
      obtain ⟨digit, hdigit, d, hd, heq⟩ := hsame
      have hpass := hblock digit hdigit
      rw [hd, passes_some_iff] at hpass
      rwa [passes_some_iff, ← count_eq_of_satisfied_eq heq]

theorem Mirrors.of_error (h : Mirrors goal width block view) {digit : Nat}
    (hdigit : digit < width) {halt : Halt} (hblock : block digit = .error halt) :
    halt.IsFailure ∧ ∃ halt, halt.IsFailure ∧ view = .error halt := by
  cases h with
  | failure hhalt _ hall =>
      refine ⟨?_, _, hhalt, rfl⟩
      rcases hall digit hdigit with hpass | ⟨other, hother, heq⟩
      · exact absurd hpass (hblock ▸ not_passes_error)
      · cases hblock.symm.trans heq
        exact hother
  | nothing hall => cases hblock.symm.trans (hall digit hdigit)
  | candidate _ _ hall =>
      rcases hall digit hdigit with hnone | ⟨d, hd, -⟩
      · cases hblock.symm.trans hnone
      · cases hblock.symm.trans hd

theorem Mirrors.of_some (h : Mirrors goal width block view) {digit : Nat}
    (hdigit : digit < width) {d : Candidate} (hblock : block digit = .ok (some d))
    (hd : view.Passes goal ∨ d.count = goal) :
    ∃ c, view = .ok (some c) ∧ c.count ≤ goal ∧
      (d.satisfied = c.satisfied ∨ d.count < c.count) := by
  cases h with
  | failure _ _ hall =>
      rcases hd with hpass | hcount
      · exact absurd hpass not_passes_error
      · rcases hall digit hdigit with hpass | ⟨_, _, heq⟩
        · exact absurd hpass (hblock ▸ not_passes_of_count_eq hcount)
        · cases hblock.symm.trans heq
  | nothing hall => cases hblock.symm.trans (hall digit hdigit)
  | candidate hgoal _ hall =>
      rcases hall digit hdigit with hnone | ⟨e, he, hle⟩
      · cases hblock.symm.trans hnone
      · cases hblock.symm.trans he
        exact ⟨_, rfl, hgoal, hle⟩

theorem Mirrors.exists_some {c : Candidate} (h : Mirrors goal width block (.ok (some c))) :
    ∃ digit < width, ∃ d, block digit = .ok (some d) ∧ d.satisfied = c.satisfied := by
  cases h with
  | candidate _ hsame _ => exact hsame

end

/-! ## Two searches -/

/-- What a finer search and a coarser one conclude goes together. -/
inductive Concurs : View → View → Prop where
  | failure {first second : Halt} : first.IsFailure → second.IsFailure →
      Concurs (.error first) (.error second)
  | unsatisfiable : Concurs (.ok none) (.ok none)
  | optimal {first second : Candidate} : first.satisfied = second.satisfied →
      Concurs (.ok (some first)) (.ok (some second))
  | limited {text : String} {second : View} :
      Concurs (.error (.error (.resourceLimit text))) second

section

variable {goal width total limit : Nat} {views finer : Nat → View} {result : View}

/-- Where the finer search goes on, the coarser one does. -/
theorem allPass_of_finer {bound number : Nat}
    (hblocks : ∀ k < bound, Mirrors goal width (fun digit => finer (k * width + digit)) (views k))
    (hle : bound * width ≤ number) (hpass : AllPass goal finer number) :
    AllPass goal views bound := by
  intro k hk
  refine (hblocks k hk).passes fun digit hdigit => hpass _ ?_
  exact Nat.lt_of_lt_of_le (mul_add_lt hk hdigit) hle

/-- In the end the leading candidates are equally good for the same reasons. -/
theorem concurs_of_leads {best coarse : Option Candidate}
    (hblocks : ∀ k < total, Mirrors goal width (fun digit => finer (k * width + digit)) (views k))
    (hpass : AllPass goal views total) (hbest : Leads finer (total * width) best)
    (hcoarse : Leads views total coarse) : Concurs (.ok best) (.ok coarse) := by
  cases best with
  | none =>
      cases coarse with
      | none => exact .unsatisfiable
      | some c =>
          obtain ⟨first, hfirst, hview, -⟩ := hcoarse
          obtain ⟨digit, hdigit, d, hd, -⟩ := (hview ▸ hblocks first hfirst).exists_some
          exact absurd hd (hbest _ (mul_add_lt hfirst hdigit) d)
  | some b =>
      obtain ⟨number, hnumber, hb, hfiner⟩ := hbest
      obtain ⟨hk, hdigit, hsplit⟩ := div_mod_of_lt hnumber
      obtain ⟨c, hc, -, hbc⟩ :=
        (hblocks _ hk).of_some hdigit (by rw [← hsplit]; exact hb) (.inl (hpass _ hk))
      cases coarse with
      | none => exact absurd hc (hcoarse _ hk c)
      | some d =>
          obtain ⟨first, hfirst, hd, hviews⟩ := hcoarse
          obtain ⟨digit, hdigit', e, he, hed⟩ := (hd ▸ hblocks first hfirst).exists_some
          have hcount := count_eq_of_satisfied_eq hed
          obtain ⟨heb, hebefore⟩ := hfiner _ (mul_add_lt hfirst hdigit') e he
          obtain ⟨hcd, hcbefore⟩ := hviews _ hk c hc
          -- The four candidates count equally much, so each of them is in the first best block.
          have hsame : b.satisfied = c.satisfied := by
            rcases hbc with hsame | hlt
            · exact hsame
            · omega
          have hbc := count_eq_of_satisfied_eq hsame
          have hblock : number / width = first := by
            rcases Nat.lt_trichotomy (number / width) first with hlt | heq | hgt
            · exact absurd (hcbefore hlt) (by omega)
            · exact heq
            · have hearlier : first * width + digit < number := by
                have hend := mul_add_lt hgt hdigit'
                omega
              exact absurd (hebefore hearlier) (by omega)
          rw [hblock] at hc
          cases hc.symm.trans hd
          exact .optimal hsame

theorem AscentEnds.concurs {fine : View} (hwidth : 0 < width)
    (hblocks : ∀ k < total, Mirrors goal width (fun digit => finer (k * width + digit)) (views k))
    (hfine : AscentEnds goal finer (total * width) limit fine)
    (hcoarse : AscentEnds goal views total limit result) : Concurs fine result := by
  cases hfine with
  | @halted number halt htotal hlimit hpass hhalt =>
      obtain ⟨hk, hdigit, hsplit⟩ := div_mod_of_lt htotal
      have hbound : number / width < limit := Nat.lt_of_le_of_lt (Nat.div_le_self _ _) hlimit
      have hpass' := allPass_of_finer (fun k h => hblocks k (h.trans hk))
        (by omega) hpass
      obtain ⟨hfailure, other, hother, hview⟩ :=
        (hblocks _ hk).of_error hdigit (by rw [← hsplit]; exact hhalt)
      rw [hcoarse.eq_view hk hbound hpass' (hview ▸ not_passes_error), hview]
      exact .failure hfailure hother
  | @reached number best htotal hlimit hpass hbest hcount =>
      obtain ⟨hk, hdigit, hsplit⟩ := div_mod_of_lt htotal
      have hbound : number / width < limit := Nat.lt_of_le_of_lt (Nat.div_le_self _ _) hlimit
      have hpass' := allPass_of_finer (fun k h => hblocks k (h.trans hk))
        (by omega) hpass
      obtain ⟨c, hview, hgoal, hbc⟩ :=
        (hblocks _ hk).of_some hdigit (by rw [← hsplit]; exact hbest) (.inr hcount)
      have hsame : best.satisfied = c.satisfied := by
        rcases hbc with hsame | hlt
        · exact hsame
        · omega
      have hreached : c.count = goal := by
        rw [← count_eq_of_satisfied_eq hsame, hcount]
      rw [hcoarse.eq_view hk hbound hpass' (hview ▸ not_passes_of_count_eq hreached), hview]
      exact .optimal hsame
  | exhausted hle hpass hleads =>
      have hpass' := allPass_of_finer hblocks (Nat.le_refl _) hpass
      have htotal : total ≤ limit :=
        Nat.le_trans (Nat.le_mul_of_pos_right total hwidth) hle
      obtain ⟨best, rfl, hbest⟩ := hcoarse.exists_leads htotal hpass'
      exact concurs_of_leads hblocks hpass' hleads hbest
  | limited _ _ => exact .limited

end

end Infeasibility.FiniteDomain
