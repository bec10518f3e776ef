import Infeasibility.Proofs.FiniteDomain.TermText

/-! # The words of constraints

The text of a constraint, with its variables by their numbers, is put together from words. Its
connective stands between parts, one for each constraint that is connected, and it is a word of none
of them. So the text shows the parts, and it shows the connective if there are several. -/

namespace Infeasibility.FiniteDomain

open Words

/-! ## Connectives -/

inductive Connective where
  | and
  | or
  | implies

namespace Connective

def symbol : Connective → String
  | and => "&"
  | or => "|"
  | implies => "->"

/-- The truth value of no constraints at all, connected. -/
def ofNone : Connective → Bool
  | or => false
  | _ => true

theorem symbol_injective : Function.Injective symbol := by
  intro k k' h
  cases k <;> cases k' <;> simp [symbol] at h ⊢

end Connective

namespace Constraint

/-- The outermost connective; any one for a constraint that does not connect others. -/
def connective : Constraint → Connective
  | any _ => .or
  | implies .. => .implies
  | _ => .and

/-- The constraints that are connected, which may be a single one. -/
def operands : Constraint → List Constraint
  | all cs => cs
  | any cs => cs
  | implies p q => [p, q]
  | c => [c]

/-! ## Words -/

/-- The words of the text of a constraint where it is an operand. -/
def operandWords : Constraint → List String
  | compare op l r => [op.symbol].intercalate [l.words, r.words]
  | c => [c.asOperand (c.text Var.name)]

/-- The parts of the text of a constraint, between which its connective stands. -/
def parts (c : Constraint) : List (List String) :=
  if c.operands = [] then [[toString c.connective.ofNone]] else c.operands.map operandWords

/-- The words of the text of a constraint. -/
def words (c : Constraint) : List String :=
  [c.connective.symbol].intercalate c.parts

theorem operandWords_ne_nil (c : Constraint) : c.operandWords ≠ [] := by
  cases c <;> simp [operandWords, List.intercalate_cons_cons]

theorem parts_ne_nil (c : Constraint) : c.parts ≠ [] := by
  rw [parts]
  split
  · simp
  · simpa using ‹_›

theorem ne_nil_of_mem_parts {c : Constraint} {part : List String} (h : part ∈ c.parts) :
    part ≠ [] := by
  rw [parts] at h
  split at h
  · rw [List.mem_singleton.mp h]
    simp
  · obtain ⟨o, -, rfl⟩ := List.mem_map.mp h
    exact o.operandWords_ne_nil

theorem asOperand_text_eq (c : Constraint) :
    c.asOperand (c.text Var.name) = " ".intercalate c.operandWords := by
  cases c with
  | compare op l r =>
      have hwords : ∀ part ∈ [l.words, r.words], part ≠ [] := by
        simp [Term.words_ne_nil]
      rw [operandWords, intercalate_intercalate hwords]
      simp [asOperand, text, Term.text_eq_intercalate, String.intercalate_cons_cons,
        String.append_assoc]
  | _ => simp [operandWords]

theorem operandTexts_eq (cs : List Constraint) :
    operandTexts Var.name cs = (cs.map operandWords).map (" ".intercalate ·) := by
  induction cs with
  | nil => rfl
  | cons c cs ih => rw [operandTexts, ih, asOperand_text_eq, List.map_cons, List.map_cons]

theorem text_eq_intercalate (c : Constraint) : c.text Var.name = " ".intercalate c.words := by
  rw [words, intercalate_intercalate fun _ => ne_nil_of_mem_parts, parts]
  cases c with
  | all cs =>
      rw [text, operandTexts_eq]
      cases cs with
      | nil => rfl
      | cons c cs => simp [operands, connective, Connective.symbol]
  | any cs =>
      rw [text, operandTexts_eq]
      cases cs with
      | nil => rfl
      | cons c cs => simp [operands, connective, Connective.symbol]
  | implies p q =>
      simp [text, asOperand_text_eq, operands, connective, Connective.symbol,
        String.intercalate_cons_cons]
  | _ => simp [operands, ← asOperand_text_eq, asOperand]

theorem isWord_comparison (op : Comparison) : IsWord op.symbol := by
  apply isWord_of_forall
  cases op <;> simp [Comparison.symbol]

theorem isWord_connective (k : Connective) : IsWord k.symbol := by
  apply isWord_of_forall
  cases k <;> simp [Connective.symbol]

theorem isWord_truth (truth : Bool) : IsWord (toString truth) := by
  apply isWord_of_forall
  cases truth <;> simp [toString]

/-- The words of a constraint are words if those of what it connects are. -/
theorem isWord_of_operands {c : Constraint} {word : String}
    (h : ∀ o ∈ c.operands, ∀ word ∈ o.operandWords, IsWord word) (hword : word ∈ c.words) :
    IsWord word := by
  rcases mem_intercalate hword with hword | ⟨part, hpart, hword⟩
  · rw [List.mem_singleton.mp hword]
    exact isWord_connective c.connective
  rw [parts] at hpart
  split at hpart
  · rw [List.mem_singleton.mp hpart, List.mem_singleton] at hword
    rw [hword]
    exact isWord_truth c.connective.ofNone
  · obtain ⟨o, ho, rfl⟩ := List.mem_map.mp hpart
    exact h o ho word hword

theorem isBalanced_text_of_operands {c : Constraint}
    (h : ∀ o ∈ c.operands, ∀ word ∈ o.operandWords, IsWord word) :
    IsBalanced (c.text Var.name) := by
  rw [text_eq_intercalate]
  exact isBalanced_of_words fun _ => isWord_of_operands h

/-- The text of a constraint has balanced brackets, and its operand words are words. -/
structure IsReadable (c : Constraint) : Prop where
  isWord : ∀ word ∈ c.operandWords, IsWord word
  isBalanced : IsBalanced (c.text Var.name)

theorem isReadable_of_single {c : Constraint} (hsingle : c.operands = [c])
    (h : ∀ word ∈ c.operandWords, IsWord word) : c.IsReadable :=
  ⟨h, isBalanced_text_of_operands (by simpa [hsingle] using h)⟩

theorem isReadable_of_operands {c : Constraint}
    (hbrackets : c.operandWords = [bracketed (c.text Var.name)])
    (h : ∀ o ∈ c.operands, o.IsReadable) : c.IsReadable := by
  have hbalanced : IsBalanced (c.text Var.name) :=
    isBalanced_text_of_operands fun o ho => (h o ho).isWord
  refine ⟨?_, hbalanced⟩
  intro word hword
  rw [hbrackets, List.mem_singleton] at hword
  rw [hword]
  exact hbalanced.isWord_bracketed

theorem asNegated_eq (c : Constraint) (text : String) :
    c.asNegated text = bracketed text ∨ ∃ v, c = literal v ∧ c.asNegated text = text := by
  cases c <;> simp [asNegated]

theorem isReadable (c : Constraint) : c.IsReadable := by
  induction c using Constraint.induction with
  | literal v =>
      apply isReadable_of_single rfl
      simpa [operandWords, asOperand, text] using isWord_name v
  | compare op l r =>
      apply isReadable_of_single rfl
      intro word hword
      rcases mem_intercalate hword with hword | ⟨part, hpart, hword⟩
      · rw [List.mem_singleton.mp hword]
        exact isWord_comparison op
      · rcases List.mem_pair.mp hpart with rfl | rfl
        · exact Term.isWord_of_mem_words hword
        · exact Term.isWord_of_mem_words hword
  | all cs ih => exact isReadable_of_operands rfl ih
  | any cs ih => exact isReadable_of_operands rfl ih
  | not c ih =>
      apply isReadable_of_single rfl
      have hnegated : IsWord (c.asNegated (c.text Var.name)) := by
        rcases asNegated_eq c (c.text Var.name) with h | ⟨v, rfl, h⟩
        · rw [h]
          exact ih.isBalanced.isWord_bracketed
        · rw [h, text]
          exact isWord_name v
      simpa [operandWords, asOperand, text] using (isWord_of_forall (by simp)).append hnegated
  | implies p q ihp ihq =>
      apply isReadable_of_operands rfl
      simp [operands, ihp, ihq]
  | allDifferent ts =>
      apply isReadable_of_single rfl
      have hlisted : IsBalanced (", ".intercalate (ts.map (Term.text Var.name))) := by
        apply IsBalanced.intercalate
        · exact isBalanced_of_forall (by simp)
        · intro text htext
          obtain ⟨t, -, rfl⟩ := List.mem_map.mp htext
          exact t.isBalanced_text
      have hbracketed : IsWord (bracketed (", ".intercalate (ts.map (Term.text Var.name)))) :=
        hlisted.isWord_bracketed
      simpa [operandWords, asOperand, text] using (isWord_of_forall (by simp)).append hbracketed

theorem isWord_of_mem_words {c : Constraint} {word : String} (h : word ∈ c.words) : IsWord word :=
  isWord_of_operands (fun o _ => o.isReadable.isWord) h

theorem words_eq_of_text_eq {c d : Constraint} (h : c.text Var.name = d.text Var.name) :
    c.words = d.words := by
  rw [text_eq_intercalate, text_eq_intercalate] at h
  exact eq_of_intercalate_eq (intercalate_ne_nil c.parts_ne_nil fun _ => ne_nil_of_mem_parts)
    (intercalate_ne_nil d.parts_ne_nil fun _ => ne_nil_of_mem_parts)
    (fun _ => isWord_of_mem_words) (fun _ => isWord_of_mem_words) h

/-! ## First letters -/

/-- The first letter of an operand, and a space for a comparison. -/
def initial : Constraint → Char
  | literal _ => 'v'
  | compare .. => ' '
  | not _ => '!'
  | allDifferent _ => 'a'
  | _ => '('

/-- The first letter of a word, and a space for more words than one. -/
def initialOf : List String → Char
  | [word] => word.toList.headD ' '
  | _ => ' '

theorem initialOf_operandWords (c : Constraint) : initialOf c.operandWords = c.initial := by
  cases c with
  | compare op l r =>
      obtain ⟨word, words, hl⟩ := List.exists_cons_of_ne_nil l.words_ne_nil
      simp [operandWords, List.intercalate_cons_cons, hl, initialOf, initial]
  | _ => simp [operandWords, asOperand, text, initialOf, initial, bracketed, Var.name]

theorem initial_eq_of_operandWords_eq {c d : Constraint} (h : c.operandWords = d.operandWords) :
    c.initial = d.initial := by
  rw [← initialOf_operandWords, ← initialOf_operandWords, h]

/-- No operand is a word that begins in another way. -/
theorem operandWords_ne_singleton {word : String}
    (h : initialOf [word] ∉ ['v', ' ', '!', 'a', '(']) (c : Constraint) :
    c.operandWords ≠ [word] := by
  intro hword
  rw [← hword, initialOf_operandWords] at h
  cases c <;> simp [initial] at h

theorem operandWords_of_initial {c : Constraint} (h : c.initial = '(') :
    c.operandWords = [bracketed (c.text Var.name)] := by
  cases c with
  | all cs => rfl
  | any cs => rfl
  | implies p q => rfl
  | _ => simp [initial] at h

/-! ## Parts -/

theorem not_isPlain_comparison (op : Comparison) : ¬ Term.IsPlain op.symbol := by
  cases op <;> simp [Comparison.symbol, Term.IsPlain, Term.IsTermLetter]

theorem not_isPlain_connective (k : Connective) : ¬ Term.IsPlain k.symbol := by
  cases k <;> simp [Connective.symbol, Term.IsPlain, Term.IsTermLetter]

theorem notMem_of_not_isPlain {word : String} {l r : Term} {part : List String}
    (h : ¬ Term.IsPlain word) (hpart : part ∈ [l.words, r.words]) : word ∉ part := by
  intro hword
  apply h
  rcases List.mem_pair.mp hpart with rfl | rfl
  · exact Term.isPlain_of_mem_words hword
  · exact Term.isPlain_of_mem_words hword

theorem symbol_notMem_operandWords (k : Connective) (c : Constraint) :
    k.symbol ∉ c.operandWords := by
  have hword : c.operandWords ≠ [k.symbol] := by
    apply operandWords_ne_singleton
    cases k <;> simp [Connective.symbol, initialOf]
  intro h
  cases c with
  | compare op l r =>
      rcases mem_intercalate h with hsymbol | ⟨part, hpart, hpartword⟩
      · cases k <;> cases op <;> simp [Connective.symbol, Comparison.symbol] at hsymbol
      · exact notMem_of_not_isPlain (not_isPlain_connective k) hpart hpartword
  | _ => exact hword (congrArg ([·]) (List.mem_singleton.mp h).symm)

theorem symbol_notMem_parts (k : Connective) {c : Constraint} {part : List String}
    (h : part ∈ c.parts) : k.symbol ∉ part := by
  rw [parts] at h
  split at h
  · rw [List.mem_singleton.mp h, List.mem_singleton]
    cases k <;> cases c.connective.ofNone <;> simp [Connective.symbol, toString]
  · obtain ⟨o, -, rfl⟩ := List.mem_map.mp h
    exact symbol_notMem_operandWords k o

/-- The words of a comparison show where its sides end. -/
theorem eq_of_comparison_eq {op op' : Comparison} {l l' r r' : Term}
    (h : (compare op l r).operandWords = (compare op' l' r').operandWords) :
    op = op' ∧ l.words = l'.words ∧ r.words = r'.words := by
  have hsides : ∀ l r : Term, ∀ part ∈ [l.words, r.words],
      op.symbol ∉ part ∧ op'.symbol ∉ part := fun _ _ _ hpart =>
    ⟨notMem_of_not_isPlain (not_isPlain_comparison op) hpart,
      notMem_of_not_isPlain (not_isPlain_comparison op') hpart⟩
  obtain ⟨hparts, hsymbol⟩ :=
    parts_eq_of_intercalate_eq (by simp) (by simp) (hsides l r) (hsides l' r') h
  simp only [List.cons.injEq, and_true] at hparts
  have hop : op = op' := by
    rcases hsymbol with hsymbol | hlength
    · cases op <;> cases op' <;> simp [Comparison.symbol] at hsymbol ⊢
    · simp at hlength
  exact ⟨hop, hparts⟩

theorem parts_eq_of_text_eq {c d : Constraint} (h : c.text Var.name = d.text Var.name) :
    c.parts = d.parts ∧ (c.connective = d.connective ∨ c.parts.length = 1) := by
  have hsymbols : ∀ e : Constraint, ∀ part ∈ e.parts,
      c.connective.symbol ∉ part ∧ d.connective.symbol ∉ part :=
    fun _ _ hpart => ⟨symbol_notMem_parts _ hpart, symbol_notMem_parts _ hpart⟩
  obtain ⟨hparts, hsymbol⟩ := parts_eq_of_intercalate_eq c.parts_ne_nil d.parts_ne_nil
    (hsymbols c) (hsymbols d) (words_eq_of_text_eq h)
  exact ⟨hparts, hsymbol.imp_left fun h => Connective.symbol_injective h⟩

/-- The parts show whether there are operands. -/
theorem operands_eq_nil_of_parts_eq {c d : Constraint} (h : c.parts = d.parts)
    (hc : c.operands = []) : d.operands = [] ∧ c.connective.ofNone = d.connective.ofNone := by
  rw [parts, if_pos hc, parts] at h
  split at h
  case isTrue hd =>
    refine ⟨hd, ?_⟩
    cases hc' : c.connective.ofNone <;> cases hd' : d.connective.ofNone <;>
      simp [hc', hd', toString] at h ⊢
  case isFalse =>
    obtain ⟨o, -, ho⟩ : ∃ o ∈ d.operands, o.operandWords = [toString c.connective.ofNone] := by
      apply List.mem_map.mp
      simp [← h]
    refine absurd ho (operandWords_ne_singleton ?_ o)
    cases c.connective.ofNone <;> simp [toString, initialOf]

end Constraint

end Infeasibility.FiniteDomain
