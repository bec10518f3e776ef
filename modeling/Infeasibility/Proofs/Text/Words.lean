import Mathlib.Data.List.Basic

/-! # Words

A text falls into words at the spaces outside of its brackets. A text that is put together from
words, with spaces between them, falls into these words again, so that it determines them. In the
same way the words determine the parts that they are put together from with a separator between
them, and a list of texts is determined by its text with commas. -/

namespace Infeasibility.Words

/-- Puts letters in front of the first word. -/
def attach (letters : List Char) : List (List Char) → List (List Char)
  | [] => [letters]
  | word :: words => (letters ++ word) :: words

/-- How many brackets are open after a letter, if `depth` are open before it. -/
def depthAfter (depth : Nat) (letter : Char) : Nat :=
  if letter = '(' then depth + 1 else if letter = ')' then depth - 1 else depth

/-- Cuts letters into words where no bracket is open. At their beginning, `depth` are open. -/
def cut : Nat → List Char → List (List Char)
  | _, [] => [[]]
  | depth, letter :: rest =>
    if letter = ' ' ∧ depth = 0 then
      [] :: cut 0 rest
    else
      attach [letter] (cut (depthAfter depth letter) rest)

/-- The letters belong to one word if `depth` brackets are open before them, and so they are after
them. -/
def Passes (depth : Nat) (letters : List Char) : Prop :=
  ∀ rest, cut depth (letters ++ rest) = attach letters (cut depth rest)

/-- The text is in one word, wherever it stands. -/
def IsWord (text : String) : Prop :=
  ∀ depth, Passes depth text.toList

/-- The text is in one word if it stands in brackets. -/
def IsBalanced (text : String) : Prop :=
  ∀ depth, Passes (depth + 1) text.toList

/-! ## Letters -/

theorem attach_attach (first second : List Char) (words : List (List Char)) :
    attach first (attach second words) = attach (first ++ second) words := by
  cases words with
  | nil => rfl
  | cons word words => simp [attach]

theorem cut_ne_nil (depth : Nat) (letters : List Char) : cut depth letters ≠ [] := by
  cases letters with
  | nil => simp [cut]
  | cons letter rest =>
      rw [cut]
      split
      · simp
      · cases cut (depthAfter depth letter) rest <;> simp [attach]

theorem passes_nil (depth : Nat) : Passes depth [] := by
  intro rest
  cases hcut : cut depth rest with
  | nil => exact absurd hcut (cut_ne_nil depth rest)
  | cons word words => simp [attach, hcut]

theorem Passes.append {depth : Nat} {first second : List Char} (hfirst : Passes depth first)
    (hsecond : Passes depth second) : Passes depth (first ++ second) := by
  intro rest
  rw [List.append_assoc, hfirst, hsecond, attach_attach]

/-- Letters other than spaces and brackets belong to one word, and so do spaces within brackets. -/
theorem passes_of_forall {depth : Nat} {letters : List Char}
    (h : ∀ letter ∈ letters, letter ≠ '(' ∧ letter ≠ ')' ∧ (letter = ' ' → depth ≠ 0)) :
    Passes depth letters := by
  induction letters with
  | nil => exact passes_nil depth
  | cons letter letters ih =>
      obtain ⟨⟨hopen, hclose, hspace⟩, hletters⟩ := List.forall_mem_cons.mp h
      intro rest
      have hnot : ¬ (letter = ' ' ∧ depth = 0) := fun hboth => hspace hboth.1 hboth.2
      have hdepth : depthAfter depth letter = depth := by simp [depthAfter, hopen, hclose]
      rw [List.cons_append, cut, if_neg hnot, hdepth, ih hletters rest, attach_attach]
      rfl

/-! ## Texts -/

theorem IsWord.isBalanced {text : String} (h : IsWord text) : IsBalanced text :=
  fun depth => h (depth + 1)

theorem IsWord.append {first second : String} (hfirst : IsWord first) (hsecond : IsWord second) :
    IsWord (first ++ second) := by
  intro depth
  rw [String.toList_append]
  exact (hfirst depth).append (hsecond depth)

theorem IsBalanced.append {first second : String} (hfirst : IsBalanced first)
    (hsecond : IsBalanced second) : IsBalanced (first ++ second) := by
  intro depth
  rw [String.toList_append]
  exact (hfirst depth).append (hsecond depth)

theorem isWord_of_forall {text : String}
    (h : ∀ letter ∈ text.toList, letter ≠ ' ' ∧ letter ≠ '(' ∧ letter ≠ ')') : IsWord text := by
  intro depth
  apply passes_of_forall
  intro letter hletter
  obtain ⟨hspace, hopen, hclose⟩ := h letter hletter
  exact ⟨hopen, hclose, fun heq => absurd heq hspace⟩

theorem isBalanced_of_forall {text : String}
    (h : ∀ letter ∈ text.toList, letter ≠ '(' ∧ letter ≠ ')') : IsBalanced text := by
  intro depth
  apply passes_of_forall
  intro letter hletter
  obtain ⟨hopen, hclose⟩ := h letter hletter
  exact ⟨hopen, hclose, fun _ => Nat.succ_ne_zero depth⟩

/-- Brackets around a text make one word of it. -/
theorem IsBalanced.isWord_bracketed {text : String} (h : IsBalanced text) :
    IsWord ("(" ++ text ++ ")") := by
  intro depth rest
  have hletters : ("(" ++ text ++ ")").toList ++ rest = '(' :: (text.toList ++ ')' :: rest) := by
    simp
  rw [hletters, cut, if_neg (by simp), depthAfter, if_pos rfl, h depth, cut, if_neg (by simp),
    depthAfter, attach_attach, attach_attach]
  simp

theorem IsBalanced.intercalate {separator : String} {texts : List String}
    (hseparator : IsBalanced separator) (h : ∀ text ∈ texts, IsBalanced text) :
    IsBalanced (separator.intercalate texts) := by
  induction texts with
  | nil => exact fun depth => passes_nil (depth + 1)
  | cons text texts ih =>
      obtain ⟨htext, htexts⟩ := List.forall_mem_cons.mp h
      cases texts with
      | nil => simpa using htext
      | cons next texts =>
          rw [String.intercalate_cons_cons]
          exact (htext.append hseparator).append (ih htexts)

/-! ## Words put together -/

theorem isBalanced_of_words {words : List String} (h : ∀ word ∈ words, IsWord word) :
    IsBalanced (" ".intercalate words) := by
  apply IsBalanced.intercalate
  · exact isBalanced_of_forall (by simp)
  · exact fun word hword => (h word hword).isBalanced

/-- The words of a text that is put together from them. -/
theorem cut_intercalate {words : List String} (hne : words ≠ []) (h : ∀ word ∈ words, IsWord word) :
    cut 0 (" ".intercalate words).toList = words.map String.toList := by
  induction words with
  | nil => exact absurd rfl hne
  | cons word words ih =>
      obtain ⟨hword, hwords⟩ := List.forall_mem_cons.mp h
      cases words with
      | nil =>
          have hcut := hword 0 []
          simpa [cut, attach] using hcut
      | cons next words =>
          have hrest := ih (List.cons_ne_nil next words) hwords
          have hletters : (" ".intercalate (word :: next :: words)).toList =
              word.toList ++ ' ' :: (" ".intercalate (next :: words)).toList := by
            simp [String.intercalate_cons_cons]
          rw [hletters, hword 0, cut, if_pos ⟨rfl, rfl⟩, hrest]
          simp [attach]

theorem eq_of_intercalate_eq {first second : List String} (hfirst : first ≠ [])
    (hsecond : second ≠ []) (hwords : ∀ word ∈ first, IsWord word)
    (hwords' : ∀ word ∈ second, IsWord word)
    (h : " ".intercalate first = " ".intercalate second) : first = second := by
  have hcut : first.map String.toList = second.map String.toList := by
    rw [← cut_intercalate hfirst hwords, ← cut_intercalate hsecond hwords', h]
  exact List.map_injective_iff.mpr (fun _ _ => String.toList_inj.mp) hcut

/-! ## Parts put together -/

theorem mem_intercalate {separators : List String} {parts : List (List String)} {word : String}
    (h : word ∈ separators.intercalate parts) :
    word ∈ separators ∨ ∃ part ∈ parts, word ∈ part := by
  induction parts with
  | nil => simp at h
  | cons part parts ih =>
      cases parts with
      | nil => exact .inr ⟨part, by simp, by simpa using h⟩
      | cons next parts =>
          rw [List.intercalate_cons_cons, List.append_assoc, List.mem_append, List.mem_append] at h
          rcases h with h | h | h
          · exact .inr ⟨part, List.mem_cons_self, h⟩
          · exact .inl h
          · rcases ih h with h | ⟨other, hother, h⟩
            · exact .inl h
            · exact .inr ⟨other, List.mem_cons_of_mem part hother, h⟩

theorem intercalate_ne_nil {separator : String} {parts : List (List String)} (hne : parts ≠ [])
    (h : ∀ part ∈ parts, part ≠ []) : [separator].intercalate parts ≠ [] := by
  cases parts with
  | nil => exact absurd rfl hne
  | cons part parts =>
      have hpart : part ≠ [] := h part List.mem_cons_self
      cases parts <;> simp [hpart]

/-- The text of parts with a separator between them is that of their words. -/
theorem intercalate_intercalate {separator : String} {parts : List (List String)}
    (h : ∀ part ∈ parts, part ≠ []) :
    " ".intercalate ([separator].intercalate parts) =
      (" " ++ separator ++ " ").intercalate (parts.map (" ".intercalate ·)) := by
  induction parts with
  | nil => rfl
  | cons part parts ih =>
      obtain ⟨hpart, hparts⟩ := List.forall_mem_cons.mp h
      cases parts with
      | nil => simp
      | cons next parts =>
          have hrest : [separator].intercalate (next :: parts) ≠ [] :=
            intercalate_ne_nil (by simp) hparts
          rw [List.map_cons, List.map_cons, String.intercalate_cons_cons, ← List.map_cons,
            ← ih hparts, List.intercalate_cons_cons, List.append_assoc,
            String.intercalate_append_of_ne_nil hpart (by simp),
            String.intercalate_append_of_ne_nil (by simp) hrest]
          simp [String.append_assoc]

/-- The parts are the same if no separator is among their words. The separator need not be the same
if there is but one part. -/
theorem parts_eq_of_intercalate_eq {separator separator' : String}
    {first second : List (List String)} (hfirst : first ≠ []) (hsecond : second ≠ [])
    (hparts : ∀ part ∈ first, separator ∉ part ∧ separator' ∉ part)
    (hparts' : ∀ part ∈ second, separator ∉ part ∧ separator' ∉ part)
    (h : [separator].intercalate first = [separator'].intercalate second) :
    first = second ∧ (separator = separator' ∨ first.length = 1) := by
  have hleft : ([separator].intercalate first).splitOn separator = first :=
    List.splitOn_intercalate separator (fun part hpart => (hparts part hpart).1) hfirst
  have hright : ([separator'].intercalate second).splitOn separator' = second :=
    List.splitOn_intercalate separator' (fun part hpart => (hparts' part hpart).2) hsecond
  by_cases heq : separator = separator'
  · subst heq
    refine ⟨?_, .inl rfl⟩
    rw [← hleft, ← hright, h]
  -- With another separator, neither text has a place to be split at.
  have hone : separator ∉ [separator'].intercalate second := by
    intro hmem
    rcases mem_intercalate hmem with hmem | ⟨part, hpart, hmem⟩
    · exact heq (List.mem_singleton.mp hmem)
    · exact (hparts' part hpart).1 hmem
  have hother : separator' ∉ [separator].intercalate first := by
    intro hmem
    rcases mem_intercalate hmem with hmem | ⟨part, hpart, hmem⟩
    · exact heq (List.mem_singleton.mp hmem).symm
    · exact (hparts part hpart).2 hmem
  rw [h, List.splitOn_eq_singleton hone] at hleft
  rw [← h, List.splitOn_eq_singleton hother, h] at hright
  exact ⟨hleft.symm.trans hright, .inr (congrArg List.length hleft).symm⟩

/-! ## Texts listed -/

/-- The text is not empty, and there is no comma in it. -/
def IsItem (text : String) : Prop :=
  text ≠ "" ∧ ',' ∉ text.toList

/-- A space follows each comma. -/
theorem toList_listed (text : String) (texts : List String) :
    (", ".intercalate (text :: texts)).toList =
      [','].intercalate (text.toList :: texts.map fun next => ' ' :: next.toList) := by
  induction texts generalizing text with
  | nil => simp
  | cons next texts ih =>
      have hspace : ∀ rest, [','].intercalate ((' ' :: next.toList) :: rest) =
          ' ' :: [','].intercalate (next.toList :: rest) := by
        intro rest
        cases rest <;> simp
      simp [String.intercalate_cons_cons, ih, hspace]

theorem splitOn_listed {text : String} {texts : List String}
    (h : ∀ item ∈ text :: texts, IsItem item) :
    (", ".intercalate (text :: texts)).toList.splitOn ',' =
      text.toList :: texts.map fun next => ' ' :: next.toList := by
  rw [toList_listed]
  apply List.splitOn_intercalate
  · intro letters hletters
    rcases List.mem_cons.mp hletters with rfl | hletters
    · exact (h text List.mem_cons_self).2
    · obtain ⟨next, hnext, rfl⟩ := List.mem_map.mp hletters
      simpa using (h next (List.mem_cons_of_mem text hnext)).2
  · simp

/-- Items are told apart by the commas between them. -/
theorem eq_of_listed_eq {first second : List String} (hfirst : ∀ text ∈ first, IsItem text)
    (hsecond : ∀ text ∈ second, IsItem text)
    (h : ", ".intercalate first = ", ".intercalate second) : first = second := by
  have hsplit := congrArg (fun text => text.toList.splitOn ',') h
  cases first with
  | nil =>
      cases second with
      | nil => rfl
      | cons text texts =>
          simp only [splitOn_listed hsecond] at hsplit
          simp [(hsecond text List.mem_cons_self).1] at hsplit
  | cons text texts =>
      cases second with
      | nil =>
          simp only [splitOn_listed hfirst] at hsplit
          simp [(hfirst text List.mem_cons_self).1] at hsplit
      | cons text' texts' =>
          simp only [splitOn_listed hfirst, splitOn_listed hsecond, List.cons.injEq] at hsplit
          obtain ⟨htext, htexts⟩ := hsplit
          have hinjective : Function.Injective fun next : String => ' ' :: next.toList := by
            intro next next' hnext
            exact String.toList_inj.mp (List.cons.inj hnext).2
          rw [String.toList_inj.mp htext, List.map_injective_iff.mpr hinjective htexts]

end Infeasibility.Words
