import Infeasibility.Proofs.FiniteDomain.Evaluation
import Infeasibility.Proofs.Results
import Mathlib.Algebra.Group.Int.Defs

/-! # Exact arithmetic

Terms have exact values among the unbounded integers. The evaluation in 64 bits finds the exact
value if it gets through, and it gets through unless some subterm offends: by a division by zero, by
a value that takes more than 64 bits, or by the one remainder whose quotient does. The first that
offends, operands before operators and left before right, is the one whose error is reported. -/

namespace Infeasibility.FiniteDomain

/-! ## Exact values -/

/-- Division rounds towards zero, and the remainder is that of this division. -/
def Operator.exact (operator : Operator) (left right : Int) : Int :=
  match operator with
  | add => left + right
  | sub => left - right
  | mul => left * right
  | div => left.tdiv right
  | rem => left.tmod right

/-- The integer takes no more than 64 bits. -/
def Fits (n : Int) : Prop :=
  -2 ^ 63 ≤ n ∧ n ≤ 2 ^ 63 - 1

instance (n : Int) : Decidable (Fits n) :=
  inferInstanceAs (Decidable (_ ∧ _))

/-- A term comes after its operands, and these come from left to right. -/
def Term.postorder : Term → List Term
  | const value => [const value]
  | var v => [var v]
  | neg t => t.postorder ++ [neg t]
  | binary op l r => l.postorder ++ r.postorder ++ [binary op l r]

namespace Assignment

/-- The value of a term among the unbounded integers. It means nothing if a divisor is zero. -/
def exact (a : Assignment) : Term → Int
  | .const value => value.toInt
  | .var v => ((a.value? v).getD 0).toInt
  | .neg t => -a.exact t
  | .binary op l r => op.exact (a.exact l) (a.exact r)

/-! ## Offences -/

/-- The term is a division by zero, or the remainder of one. -/
def DividesByZero (a : Assignment) : Term → Prop
  | .binary .div _ r | .binary .rem _ r => a.exact r = 0
  | _ => False

/-- The term is the remainder of a division whose quotient is the only one not to fit. -/
def TakesExtremeRemainder (a : Assignment) : Term → Prop
  | .binary .rem l r => a.exact l = -2 ^ 63 ∧ a.exact r = -1
  | _ => False

instance (a : Assignment) (t : Term) : Decidable (a.DividesByZero t) := by
  unfold DividesByZero
  split <;> infer_instance

instance (a : Assignment) (t : Term) : Decidable (a.TakesExtremeRemainder t) := by
  unfold TakesExtremeRemainder
  split <;> infer_instance

/-- The term has no value in 64 bits though its operands may have one. -/
def Offends (a : Assignment) (t : Term) : Prop :=
  a.DividesByZero t ∨ ¬ Fits (a.exact t) ∨ a.TakesExtremeRemainder t

instance (a : Assignment) (t : Term) : Decidable (a.Offends t) :=
  inferInstanceAs (Decidable (_ ∨ _))

/-- What a term that offends is an error for. -/
def offence (a : Assignment) (t : Term) : EvalError :=
  if a.DividesByZero t then .divisionByZero else .overflow

/-- The exact value, unless a term of the list offends. -/
def assess (a : Assignment) (t : Term) (terms : List Term) : Except EvalError Int :=
  match terms.find? (a.Offends ·) with
  | none => .ok (a.exact t)
  | some s => .error (a.offence s)

end Assignment

/-! ## Words -/

theorem fits_toInt (word : Int64) : Fits word.toInt := by
  have hlow := word.le_toInt
  have hhigh := word.toInt_lt
  constructor
  · exact hlow
  · omega

theorem checked_eq (n : Int) :
    checked n = if Fits n then .ok (Int64.ofInt n) else .error .overflow := by
  have hmin : Int64.minValue.toInt = -2 ^ 63 := by decide
  have hmax : Int64.maxValue.toInt = 2 ^ 63 - 1 := by decide
  rw [checked, hmin, hmax]
  rfl

theorem checked_toInt (word : Int64) : checked word.toInt = .ok word := by
  rw [checked_eq, if_pos (fits_toInt word), Int64.ofInt_toInt]

/-- A checked integer is itself as a word. -/
theorem map_toInt_checked (n : Int) :
    Int64.toInt <$> checked n = if Fits n then .ok n else .error .overflow := by
  rw [checked_eq]
  by_cases h : Fits n
  · have hlt : n < 2 ^ 63 := by
      have hle := h.2
      omega
    rw [if_pos h, if_pos h]
    exact congrArg Except.ok (Int64.toInt_ofInt_of_le h.1 hlt)
  · rw [if_neg h, if_neg h]
    rfl

/-- Only the least integer has a quotient that does not fit, and only by minus one. -/
theorem fits_tdiv_iff {m n : Int} (hm : Fits m) :
    Fits (m.tdiv n) ↔ ¬ (m = -2 ^ 63 ∧ n = -1) := by
  obtain ⟨hlow, hhigh⟩ := hm
  constructor
  · rintro hfits ⟨rfl, rfl⟩
    exact absurd hfits (by decide)
  · intro hextreme
    have habs : (m.tdiv n).natAbs = m.natAbs / n.natAbs := Int.natAbs_tdiv m n
    have hle : m.natAbs / n.natAbs ≤ m.natAbs := Nat.div_le_self m.natAbs n.natAbs
    by_cases hm : m = -2 ^ 63
    · by_cases hn : n.natAbs ≤ 1
      · have hcases : n = 0 ∨ n = 1 := by omega
        subst hm
        rcases hcases with rfl | rfl <;> decide
      · have hhalf : m.natAbs / n.natAbs ≤ m.natAbs / 2 :=
          Nat.div_le_div_left (by omega) (by decide)
        constructor <;> omega
    · constructor <;> omega

theorem toInt_eq_zero_iff {word : Int64} : word.toInt = 0 ↔ word = 0 :=
  Int64.toInt_inj (y := 0)

namespace Assignment

variable {a : Assignment} {t l r : Term}

/-! ## One operator -/

theorem assess_singleton :
    a.assess t [t] = if a.Offends t then .error (a.offence t) else .ok (a.exact t) := by
  by_cases h : a.Offends t <;> simp [assess, h]

/-- Where nothing but the size of the value can be wrong, the value is checked. -/
theorem map_toInt_checked_exact (hdivisor : ¬ a.DividesByZero t)
    (hremainder : ¬ a.TakesExtremeRemainder t) :
    Int64.toInt <$> checked (a.exact t) = a.assess t [t] := by
  rw [map_toInt_checked, assess_singleton, offence, if_neg hdivisor]
  by_cases hfits : Fits (a.exact t) <;> simp [Offends, hdivisor, hremainder, hfits]

theorem assess_of_value {value : Int32} (hexact : a.exact t = value.toInt)
    (hdivisor : ¬ a.DividesByZero t) (hremainder : ¬ a.TakesExtremeRemainder t) :
    a.assess t [t] = .ok value.toInt := by
  have hfits : Fits value.toInt := by
    rw [← Int32.toInt_toInt64]
    exact fits_toInt value.toInt64
  simp [assess_singleton, Offends, hdivisor, hremainder, hexact, hfits]

theorem assess_of_dividesByZero (h : a.DividesByZero t) :
    a.assess t [t] = .error .divisionByZero := by
  rw [assess_singleton, if_pos (.inl h), offence, if_pos h]

/-- An operator applied to the exact values of its operands, as words. -/
theorem map_toInt_apply (op : Operator) {x y : Int64} (hx : x.toInt = a.exact l)
    (hy : y.toInt = a.exact r) :
    Int64.toInt <$> op.apply x y = a.assess (.binary op l r) [.binary op l r] := by
  have hzero : y = 0 ↔ a.exact r = 0 := by rw [← hy, toInt_eq_zero_iff]
  have hleft : Fits (a.exact l) := hx ▸ fits_toInt x
  cases op with
  | add => rw [Operator.apply, hx, hy, ← map_toInt_checked_exact id id]; rfl
  | sub => rw [Operator.apply, hx, hy, ← map_toInt_checked_exact id id]; rfl
  | mul => rw [Operator.apply, hx, hy, ← map_toInt_checked_exact id id]; rfl
  | div =>
      rw [Operator.apply, hx, hy]
      by_cases hr : a.exact r = 0
      · have hdivides : a.DividesByZero (.binary .div l r) := hr
        rw [if_pos (hzero.mpr hr), assess_of_dividesByZero hdivides]
        rfl
      · have hnot : ¬ a.DividesByZero (.binary .div l r) := hr
        rw [if_neg (mt hzero.mp hr), ← map_toInt_checked_exact hnot id]
        rfl
  | rem =>
      rw [Operator.apply, hx, hy]
      by_cases hr : a.exact r = 0
      · have hdivides : a.DividesByZero (.binary .rem l r) := hr
        rw [if_pos (hzero.mpr hr), assess_of_dividesByZero hdivides]
        rfl
      have hnot : ¬ a.DividesByZero (.binary .rem l r) := hr
      rw [if_neg (mt hzero.mp hr), checked_eq]
      by_cases hextreme : a.TakesExtremeRemainder (.binary .rem l r)
      · have hquotient : ¬ Fits ((a.exact l).tdiv (a.exact r)) :=
          mt (fits_tdiv_iff hleft).mp (not_not_intro hextreme)
        rw [if_neg hquotient, assess_singleton, if_pos (.inr (.inr hextreme)), offence, if_neg hnot]
        rfl
      · rw [if_pos ((fits_tdiv_iff hleft).mpr hextreme), ← map_toInt_checked_exact hnot hextreme]
        rfl

/-! ## Whole terms -/

theorem assess_append_of_error {terms rest : List Term} {error : EvalError}
    (h : a.assess l terms = .error error) : a.assess t (terms ++ rest) = .error error := by
  rw [assess] at h ⊢
  rw [List.find?_append]
  cases hfind : terms.find? (a.Offends ·) with
  | none => simp [hfind] at h
  | some s => simpa [hfind] using h

theorem assess_append_of_ok {terms rest : List Term} {n : Int}
    (h : a.assess l terms = .ok n) :
    a.exact l = n ∧ a.assess t (terms ++ rest) = a.assess t rest := by
  rw [assess] at h
  rw [assess, assess, List.find?_append]
  cases hfind : terms.find? (a.Offends ·) with
  | none => simpa [hfind] using h
  | some s => simp [hfind] at h

/-- Checked evaluation finds the exact value of a term or the first of its subterms to offend. -/
theorem map_toInt_evalTerm (hvalues : ∀ v ∈ t.vars, (a.value? v).isSome) :
    Int64.toInt <$> a.evalTerm t = a.assess t t.postorder := by
  induction t with
  | const value =>
      rw [Term.postorder, assess_of_value rfl id id, evalTerm]
      exact congrArg Except.ok (Int32.toInt_toInt64 value)
  | var v =>
      obtain ⟨value, hvalue⟩ := Option.isSome_iff_exists.mp (hvalues v (by simp [Term.vars]))
      have hexact : a.exact (.var v) = value.toInt := by simp [exact, hvalue]
      rw [Term.postorder, assess_of_value hexact id id, evalTerm, read, hvalue]
      exact congrArg Except.ok (Int32.toInt_toInt64 value)
  | neg t ih =>
      have ht := ih hvalues
      rw [Term.postorder, evalTerm]
      rcases heval : a.evalTerm t with error | x
      · rw [heval] at ht
        exact (assess_append_of_error ht.symm).symm
      · rw [heval] at ht
        obtain ⟨hx, hrest⟩ := assess_append_of_ok ht.symm
        rw [hrest, ← map_toInt_checked_exact id id, exact, hx]
        rfl
  | binary op l r ihl ihr =>
      obtain ⟨hvaluesl, hvaluesr⟩ := List.forall_mem_append.mp hvalues
      have hl := ihl hvaluesl
      have hr := ihr hvaluesr
      rw [Term.postorder, List.append_assoc, evalTerm]
      rcases hevall : a.evalTerm l with error | x
      · rw [hevall] at hl
        exact (assess_append_of_error hl.symm).symm
      rw [hevall] at hl
      obtain ⟨hx, hrest⟩ := assess_append_of_ok hl.symm
      rw [hrest]
      rcases hevalr : a.evalTerm r with error | y
      · rw [hevalr] at hr
        exact (assess_append_of_error hr.symm).symm
      rw [hevalr] at hr
      obtain ⟨hy, hrest⟩ := assess_append_of_ok hr.symm
      rw [hrest, ← map_toInt_apply op hx.symm hy.symm]
      rfl

/-! ## Refinement -/

theorem assess_eq_ok_iff {terms : List Term} {n : Int} :
    a.assess t terms = .ok n ↔ (∀ s ∈ terms, ¬ a.Offends s) ∧ a.exact t = n := by
  rw [assess]
  cases hfind : terms.find? (a.Offends ·) with
  | none =>
      have hnone : ∀ s ∈ terms, ¬ a.Offends s := by simpa using hfind
      exact ⟨fun h => ⟨hnone, Except.ok.inj h⟩, fun h => congrArg Except.ok h.2⟩
  | some s =>
      have hoffends : a.Offends s := by simpa using List.find?_some hfind
      have hmem : s ∈ terms := List.mem_of_find?_eq_some hfind
      exact ⟨fun h => by simp at h, fun h => absurd hoffends (h.1 s hmem)⟩

theorem assess_eq_error_iff {terms : List Term} {error : EvalError} :
    a.assess t terms = .error error ↔ ∃ before s after, terms = before ++ s :: after ∧
      (∀ r ∈ before, ¬ a.Offends r) ∧ a.Offends s ∧ error = a.offence s := by
  rw [assess]
  constructor
  · intro h
    cases hfind : terms.find? (a.Offends ·) with
    | none => simp [hfind] at h
    | some s =>
        obtain ⟨hoffends, before, after, hterms, hbefore⟩ := List.find?_eq_some_iff_append.mp hfind
        refine ⟨before, s, after, hterms, ?_, by simpa using hoffends, ?_⟩
        · intro r hr
          simpa using hbefore r hr
        · simpa [hfind] using h.symm
  · rintro ⟨before, s, after, rfl, hbefore, hoffends, rfl⟩
    have hnone : before.find? (a.Offends ·) = none := by simpa using hbefore
    simp [List.find?_append, hnone, hoffends]

theorem not_offends_iff {s : Term} : ¬ a.Offends s ↔
    ¬ a.DividesByZero s ∧ Fits (a.exact s) ∧ ¬ a.TakesExtremeRemainder s := by
  rw [Offends, not_or, not_or, not_not]

theorem offends_and_offence_iff {s : Term} {error : EvalError} :
    a.Offends s ∧ error = a.offence s ↔
      a.DividesByZero s ∧ error = .divisionByZero ∨
        ¬ a.DividesByZero s ∧ (¬ Fits (a.exact s) ∨ a.TakesExtremeRemainder s) ∧
          error = .overflow := by
  rw [Offends, offence]
  by_cases h : a.DividesByZero s <;> simp [h]

/-- Evaluation in 64 bits refines exact arithmetic. It finds a value if and only if no divisor is
zero, all exact values fit, and no remainder of the least word by minus one is taken, and then it
finds the exact value. Otherwise it reports the first subterm to offend: a division by zero where
the divisor is zero, and an overflow in all other cases. -/
theorem evalTerm_refines_exact {a : Assignment} {t : Term}
    (hvalues : ∀ v ∈ t.vars, (a.value? v).isSome) :
    ((∃ word, a.evalTerm t = .ok word) ↔ ∀ s ∈ t.postorder,
      ¬ a.DividesByZero s ∧ Fits (a.exact s) ∧ ¬ a.TakesExtremeRemainder s) ∧
    (∀ word, a.evalTerm t = .ok word → word.toInt = a.exact t) ∧
    ∀ error, a.evalTerm t = .error error ↔
      ∃ before s after, t.postorder = before ++ s :: after ∧
        (∀ r ∈ before, ¬ a.DividesByZero r ∧ Fits (a.exact r) ∧ ¬ a.TakesExtremeRemainder r) ∧
        (a.DividesByZero s ∧ error = .divisionByZero ∨
          ¬ a.DividesByZero s ∧ (¬ Fits (a.exact s) ∨ a.TakesExtremeRemainder s) ∧
            error = .overflow) := by
  have hevaluates := map_toInt_evalTerm hvalues
  simp only [← not_offends_iff, ← offends_and_offence_iff]
  refine ⟨⟨?_, ?_⟩, ?_, ?_⟩
  · rintro ⟨word, hword⟩
    rw [hword] at hevaluates
    exact (assess_eq_ok_iff.mp hevaluates.symm).1
  · intro hregular
    rw [assess_eq_ok_iff.mpr ⟨hregular, rfl⟩] at hevaluates
    obtain ⟨word, hword, -⟩ := map_eq_ok_iff.mp hevaluates
    exact ⟨word, hword⟩
  · intro word hword
    rw [hword] at hevaluates
    exact (assess_eq_ok_iff.mp hevaluates.symm).2.symm
  · intro error
    rw [← assess_eq_error_iff (t := t), ← hevaluates, map_eq_error_iff]

/-- The remainder of the least word by minus one is an overflow, though it is exactly zero. The
division by zero in the right operand comes too late to be reported. -/
theorem evalTerm_refines_exact_at_extreme :
    let a : Assignment := ⟨#[-2147483648, -1]⟩
    let least : Term := .binary .mul (.binary .mul (.var 0) (.var 0)) (.const (-2))
    let remainder : Term := .binary .rem least (.var 1)
    let t : Term := .binary .add remainder (.binary .div (.const 1) (.const 0))
    (∀ v ∈ t.vars, (a.value? v).isSome) ∧ a.exact remainder = 0 ∧
      a.evalTerm t = .error .overflow ∧
      (∃ word, a.evalTerm least = .ok word) ∧
      ∀ word, a.evalTerm least = .ok word → word.toInt = -2 ^ 63 := by
  intro a least remainder t
  have hleast : ∀ v ∈ least.vars, (a.value? v).isSome := by decide
  have ht : ∀ v ∈ t.vars, (a.value? v).isSome := by decide
  refine ⟨ht, by decide, ?_, ?_, (evalTerm_refines_exact hleast).2.1⟩
  · exact ((evalTerm_refines_exact ht).2.2 .overflow).mpr
      ⟨least.postorder ++ [.var 1], remainder,
        [.const 1, .const 0, .binary .div (.const 1) (.const 0), t],
        rfl, by decide, .inr (by decide)⟩
  · exact (evalTerm_refines_exact hleast).1.mpr (by decide)

end Assignment

end Infeasibility.FiniteDomain
