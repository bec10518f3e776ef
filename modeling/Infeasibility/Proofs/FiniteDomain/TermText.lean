import Infeasibility.FiniteDomain.Text
import Infeasibility.Proofs.FiniteDomain.Arithmetic
import Infeasibility.Proofs.Text.Words

/-! # Terms that read the same

The text of a term, with its variables by their numbers, determines what the term evaluates to. It
does not determine the term, since the negation of a constant may read like a constant. -/

namespace Infeasibility.FiniteDomain

open Words

/-! ## Numbers -/

theorem isDigit_of_mem_repr {n : Nat} {letter : Char} (h : letter ∈ n.repr.toList) :
    letter.isDigit := by
  rw [Nat.toList_repr] at h
  exact Nat.isDigit_of_mem_toDigits (by decide) (by decide) h

theorem eq_or_isDigit_of_mem_repr {n : Int} {letter : Char} (h : letter ∈ n.repr.toList) :
    letter = '-' ∨ letter.isDigit := by
  rw [Int.repr_eq_if] at h
  split at h
  · exact .inr (isDigit_of_mem_repr h)
  · rw [String.toList_append, List.mem_append] at h
    exact h.imp (by simp) isDigit_of_mem_repr

/-- The digits of a number do not begin with a minus. -/
theorem repr_ne_minus_append (n : Nat) (text : String) : n.repr ≠ "-" ++ text := by
  intro h
  have hdigit : '-'.isDigit := isDigit_of_mem_repr (n := n) (by rw [h]; simp)
  simp at hdigit

theorem repr_injective : Function.Injective Nat.repr := by
  intro m n h
  have hdigits : Nat.toDigits 10 m = Nat.toDigits 10 n := by
    rw [← Nat.toList_repr, ← Nat.toList_repr, h]
  calc
    m = Nat.ofDigitChars 10 (Nat.toDigits 10 m) 0 := Nat.ofDigitChars_ten_toDigits.symm
    _ = Nat.ofDigitChars 10 (Nat.toDigits 10 n) 0 := by rw [hdigits]
    _ = n := Nat.ofDigitChars_ten_toDigits

theorem repr_int_injective : Function.Injective Int.repr := by
  intro m n h
  rw [Int.repr_eq_if, Int.repr_eq_if] at h
  split at h <;> split at h
  · have := repr_injective h
    omega
  · exact absurd h (repr_ne_minus_append _ _)
  · exact absurd h.symm (repr_ne_minus_append _ _)
  · have := repr_injective ((String.append_right_inj "-").mp h)
    omega

theorem isWord_repr (n : Nat) : IsWord n.repr := by
  apply isWord_of_forall
  intro letter hletter
  have hdigit := isDigit_of_mem_repr hletter
  refine ⟨?_, ?_, ?_⟩ <;> rintro rfl <;> simp at hdigit

theorem isWord_repr_int (n : Int) : IsWord n.repr := by
  rw [Int.repr_eq_if]
  split
  · exact isWord_repr n.toNat
  · exact (isWord_of_forall (by simp)).append (isWord_repr (-n).toNat)

/-! ## Words -/

theorem Var.name_eq (v : Var) : v.name = "v" ++ v.repr :=
  congrArg ("v" ++ ·) Nat.toString_eq_repr

theorem isWord_name (v : Var) : IsWord v.name := by
  rw [Var.name_eq]
  exact (isWord_of_forall (by simp)).append (isWord_repr v)

theorem Var.name_injective : Function.Injective Var.name := by
  intro v w h
  rw [Var.name_eq, Var.name_eq, String.append_right_inj] at h
  exact repr_injective h

theorem Operator.symbol_injective : Function.Injective symbol := by
  intro op op' h
  cases op <;> cases op' <;> simp [symbol] at h ⊢

namespace Term

/-- The text of a term where it is an operand. -/
def operand (t : Term) : String :=
  t.asOperand (t.text Var.name)

/-- The words of the text of a term. -/
def words : Term → List String
  | binary op l r => [l.operand, op.symbol, r.operand]
  | t => [t.operand]

theorem operand_const (n : Int32) : (const n).operand = n.toInt.repr :=
  Int.toString_eq_repr

theorem operand_var (v : Var) : (var v).operand = v.name :=
  rfl

theorem operand_neg (t : Term) : (neg t).operand = "-" ++ t.operand :=
  rfl

theorem operand_binary (op : Operator) (l r : Term) :
    (binary op l r).operand = "(" ++ (binary op l r).text Var.name ++ ")" :=
  rfl

theorem text_eq_intercalate (t : Term) : t.text Var.name = " ".intercalate t.words := by
  cases t with
  | const n => simp [words, operand, asOperand]
  | var v => simp [words, operand, asOperand]
  | neg t => simp [words, operand, asOperand]
  | binary op l r =>
      simp [words, operand, text, String.intercalate_cons_cons, String.append_assoc]

theorem words_ne_nil (t : Term) : t.words ≠ [] := by
  cases t <;> simp [words]

theorem isWord_symbol (op : Operator) : IsWord op.symbol := by
  apply isWord_of_forall
  cases op <;> simp [Operator.symbol]

theorem isWord_operand (t : Term) : IsWord t.operand := by
  induction t with
  | const n =>
      rw [operand_const]
      exact isWord_repr_int n.toInt
  | var v => exact isWord_name v
  | neg t ih =>
      rw [operand_neg]
      exact (isWord_of_forall (by simp)).append ih
  | binary op l r ihl ihr =>
      rw [operand_binary, text_eq_intercalate]
      apply IsBalanced.isWord_bracketed
      apply isBalanced_of_words
      simpa [words] using ⟨ihl, isWord_symbol op, ihr⟩

theorem eq_of_mem_words {t : Term} {word : String} (h : word ∈ t.words) :
    (∃ s : Term, word = s.operand) ∨ ∃ op : Operator, word = op.symbol := by
  cases t with
  | binary op l r =>
      simp only [words, List.mem_cons, List.not_mem_nil, or_false] at h
      rcases h with rfl | rfl | rfl
      · exact .inl ⟨l, rfl⟩
      · exact .inr ⟨op, rfl⟩
      · exact .inl ⟨r, rfl⟩
  | _ => exact .inl ⟨_, List.mem_singleton.mp h⟩

theorem isWord_of_mem_words {t : Term} {word : String} (h : word ∈ t.words) : IsWord word := by
  rcases eq_of_mem_words h with ⟨s, rfl⟩ | ⟨op, rfl⟩
  · exact isWord_operand s
  · exact isWord_symbol op

theorem isBalanced_text (t : Term) : IsBalanced (t.text Var.name) := by
  rw [text_eq_intercalate]
  exact isBalanced_of_words fun _ => isWord_of_mem_words

theorem words_eq_of_text_eq {t u : Term} (h : t.text Var.name = u.text Var.name) :
    t.words = u.words := by
  rw [text_eq_intercalate, text_eq_intercalate] at h
  exact eq_of_intercalate_eq t.words_ne_nil u.words_ne_nil (fun _ => isWord_of_mem_words)
    (fun _ => isWord_of_mem_words) h

theorem operand_eq_of_words_eq {t u : Term} (h : t.words = u.words) : t.operand = u.operand := by
  cases t with
  | binary op l r =>
      cases u with
      | binary op' l' r' =>
          rw [operand_binary, operand_binary, text_eq_intercalate, text_eq_intercalate, h]
      | _ => simp [words] at h
  | _ =>
      cases u with
      | binary op' l' r' => simp [words] at h
      | _ => exact List.singleton_inj.mp h

/-! ## Letters -/

/-- The letter may occur in the text of a term. -/
def IsTermLetter (letter : Char) : Prop :=
  letter.isDigit ∨ letter ∈ ['v', '-', '+', '*', '/', '%', '(', ')', ' ']

/-- There is no letter in the text that does not occur in terms. -/
def IsPlain (text : String) : Prop :=
  ∀ letter ∈ text.toList, IsTermLetter letter

theorem isPlain_append_iff {first second : String} :
    IsPlain (first ++ second) ↔ IsPlain first ∧ IsPlain second := by
  rw [IsPlain, String.toList_append, List.forall_mem_append]
  rfl

theorem isPlain_repr (n : Nat) : IsPlain n.repr :=
  fun _ hletter => .inl (isDigit_of_mem_repr hletter)

theorem isPlain_repr_int (n : Int) : IsPlain n.repr := by
  intro letter hletter
  rcases eq_or_isDigit_of_mem_repr hletter with rfl | hdigit
  · simp [IsTermLetter]
  · exact .inl hdigit

theorem isPlain_symbol (op : Operator) : IsPlain op.symbol := by
  cases op <;> simp [Operator.symbol, IsPlain, IsTermLetter]

theorem isPlain_operand (t : Term) : IsPlain t.operand := by
  induction t with
  | const n =>
      rw [operand_const]
      exact isPlain_repr_int n.toInt
  | var v =>
      rw [operand_var, Var.name_eq, isPlain_append_iff]
      exact ⟨by simp [IsPlain, IsTermLetter], isPlain_repr v⟩
  | neg t ih =>
      rw [operand_neg, isPlain_append_iff]
      exact ⟨by simp [IsPlain, IsTermLetter], ih⟩
  | binary op l r ihl ihr =>
      have htext : (binary op l r).text Var.name =
          l.operand ++ " " ++ op.symbol ++ " " ++ r.operand := rfl
      have hothers : IsPlain "(" ∧ IsPlain " " ∧ IsPlain ")" := by simp [IsPlain, IsTermLetter]
      simp only [operand_binary, htext, isPlain_append_iff]
      simp [ihl, ihr, isPlain_symbol op, hothers]

theorem isPlain_text (t : Term) : IsPlain (t.text Var.name) := by
  have hoperand := isPlain_operand t
  cases t with
  | binary op l r =>
      rw [operand_binary, isPlain_append_iff, isPlain_append_iff] at hoperand
      exact hoperand.1.2
  | _ => exact hoperand

theorem isItem_text (t : Term) : IsItem (t.text Var.name) := by
  constructor
  · cases t with
    | const n =>
        rw [text, Int.toString_eq_repr, Int.repr_eq_if]
        split <;> simp
    | var v => simp [text, Var.name]
    | neg t => simp [text]
    | binary op l r => simp [text]
  · intro hcomma
    have hletter := isPlain_text t ',' hcomma
    simp [IsTermLetter] at hletter

theorem isPlain_of_mem_words {t : Term} {word : String} (h : word ∈ t.words) : IsPlain word := by
  rcases eq_of_mem_words h with ⟨s, rfl⟩ | ⟨op, rfl⟩
  · exact isPlain_operand s
  · exact isPlain_symbol op

/-! ## First letters -/

/-- The first letter of an operand, if a minus stands for digits, too. -/
def initial : Term → Char
  | const _ | neg _ => '-'
  | var _ => 'v'
  | binary .. => '('

/-- The first letter of a text, if a minus stands for digits, too. -/
def initialOf (text : String) : Char :=
  match text.toList with
  | 'v' :: _ => 'v'
  | '(' :: _ => '('
  | _ => '-'

theorem initialOf_repr (n : Int) : initialOf n.repr = '-' := by
  have hletters := fun letter => @eq_or_isDigit_of_mem_repr n letter
  rw [initialOf]
  split <;> simp_all

theorem initialOf_operand (t : Term) : initialOf t.operand = t.initial := by
  cases t with
  | const n => rw [operand_const, initialOf_repr, initial]
  | var v => simp [operand_var, Var.name, initialOf, initial]
  | neg t => simp [operand_neg, initialOf, initial]
  | binary op l r => simp [operand_binary, initialOf, initial]

theorem initial_eq_of_operand_eq {t u : Term} (h : t.operand = u.operand) :
    t.initial = u.initial := by
  rw [← initialOf_operand, ← initialOf_operand, h]

/-! ## Constants -/

/-- A constant that reads like a negation reads like the negation of a constant. -/
theorem exists_const_of_operand_eq_neg {n : Int32} {t : Term}
    (h : (const n).operand = (neg t).operand) : ∃ m, t = const m ∧ n.toInt = -m.toInt := by
  rw [operand_const, operand_neg, Int.repr_eq_if] at h
  split at h
  case isTrue => exact absurd h (repr_ne_minus_append _ _)
  case isFalse hneg =>
    rw [String.append_right_inj] at h
    have hdigits : ∀ letter ∈ t.operand.toList, letter.isDigit := by
      intro letter hletter
      rw [← h] at hletter
      exact isDigit_of_mem_repr hletter
    cases t with
    | const m =>
        refine ⟨m, rfl, ?_⟩
        have hnonneg : 0 ≤ -n.toInt := by omega
        have hrepr : (-n.toInt).repr = m.toInt.repr := by
          rw [Int.repr_eq_if, if_pos hnonneg, h, operand_const]
        have heq := repr_int_injective hrepr
        omega
    | var v => simp [operand_var, Var.name] at hdigits
    | neg t => simp [operand_neg] at hdigits
    | binary op l r => simp [operand_binary] at hdigits

end Term

namespace Assignment

variable {a : Assignment} {t u : Term}

theorem evalTerm_neg_const (n : Int32) :
    a.evalTerm (.neg (.const n)) = checked (-n.toInt) := by
  rw [evalTerm, evalTerm]
  simp [bind, Except.bind]

theorem evalTerm_const_eq_neg {n : Int32} (h : (Term.const n).operand = (Term.neg t).operand) :
    a.evalTerm (.const n) = a.evalTerm (.neg t) := by
  obtain ⟨m, rfl, hneg⟩ := Term.exists_const_of_operand_eq_neg h
  rw [evalTerm_neg_const, ← hneg, ← Int32.toInt_toInt64, checked_toInt, evalTerm]

theorem evalTerm_eq_of_operand_eq (h : t.operand = u.operand) : a.evalTerm t = a.evalTerm u := by
  induction t generalizing u with
  | const n =>
      have hinitial := Term.initial_eq_of_operand_eq h
      cases u with
      | const m =>
          rw [Term.operand_const, Term.operand_const] at h
          rw [Int32.toInt_inj.mp (repr_int_injective h)]
      | neg u => exact evalTerm_const_eq_neg h
      | _ => simp [Term.initial] at hinitial
  | var v =>
      have hinitial := Term.initial_eq_of_operand_eq h
      cases u with
      | var w => rw [Var.name_injective h]
      | _ => simp [Term.initial] at hinitial
  | neg t ih =>
      have hinitial := Term.initial_eq_of_operand_eq h
      cases u with
      | const m => exact (evalTerm_const_eq_neg h.symm).symm
      | neg u =>
          rw [Term.operand_neg, Term.operand_neg, String.append_right_inj] at h
          rw [evalTerm, evalTerm, ih h]
      | _ => simp [Term.initial] at hinitial
  | binary op l r ihl ihr =>
      have hinitial := Term.initial_eq_of_operand_eq h
      cases u with
      | binary op' l' r' =>
          rw [Term.operand_binary, Term.operand_binary, String.append_left_inj,
            String.append_right_inj] at h
          have hwords := Term.words_eq_of_text_eq h
          simp only [Term.words, List.cons.injEq, and_true] at hwords
          obtain ⟨hl, hop, hr⟩ := hwords
          rw [evalTerm, evalTerm, ihl hl, ihr hr, Operator.symbol_injective hop]
      | _ => simp [Term.initial] at hinitial

theorem evalTerm_eq_of_words_eq (h : t.words = u.words) : a.evalTerm t = a.evalTerm u :=
  evalTerm_eq_of_operand_eq (Term.operand_eq_of_words_eq h)

theorem evalTerm_eq_of_text_eq (h : t.text Var.name = u.text Var.name) :
    a.evalTerm t = a.evalTerm u :=
  evalTerm_eq_of_words_eq (Term.words_eq_of_text_eq h)

end Assignment

end Infeasibility.FiniteDomain
