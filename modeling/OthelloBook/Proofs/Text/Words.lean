import OthelloBook.Text.Words
import Mathlib.Data.List.DropRight

/-!
# Texts by their words

The words of a text are its parts between blanks. A blank splits the words of a text into those before
and those after it, and all else about words follows from that. Blanks at the end of a text, which are
taken off before anything else is read, belong to no word.
-/
namespace OthelloBook.Text

/-- The words of a text: it begins with blanks, and each word goes on to the next blank or the end. -/
inductive HasWords : List Char → List (List Char) → Prop
  | blanks {bs : List Char} (h : ∀ c ∈ bs, isBlank c = true) : HasWords bs []
  | word {bs w rest : List Char} {ws : List (List Char)} (hbs : ∀ c ∈ bs, isBlank c = true)
      (hne : w ≠ []) (hw : ∀ c ∈ w, isBlank c = false) (hrest : ∀ c ∈ rest.head?, isBlank c = true)
      (h : HasWords rest ws) : HasWords (bs ++ w ++ rest) (w :: ws)

variable {cs ds bs w : List Char} {ws vs : List (List Char)} {b c : Char}

theorem wordsFrom_append_cons (hb : isBlank b = true) (w cs ds : List Char) :
    wordsFrom w (cs ++ b :: ds) = wordsFrom w cs ++ wordsOf ds := by
  induction cs generalizing w with
  | nil => cases w <;> simp [wordsFrom, hb, wordsOf]
  | cons c cs ih =>
    rw [List.cons_append, wordsFrom, wordsFrom, ih, ih]
    cases isBlank c <;> cases w <;> simp

/-- The words of a text are those before a blank and those after it. -/
theorem wordsOf_append_cons (hb : isBlank b = true) (cs ds : List Char) :
    wordsOf (cs ++ b :: ds) = wordsOf cs ++ wordsOf ds :=
  wordsFrom_append_cons hb [] cs ds

@[simp] theorem wordsOf_nil : wordsOf [] = [] := rfl

theorem wordsOf_cons_blank (hb : isBlank b = true) (cs : List Char) :
    wordsOf (b :: cs) = wordsOf cs :=
  wordsOf_append_cons hb [] cs

theorem wordsOf_blanks_append (hbs : ∀ c ∈ bs, isBlank c = true) (cs : List Char) :
    wordsOf (bs ++ cs) = wordsOf cs := by
  induction bs with
  | nil => rfl
  | cons b bs ih =>
    obtain ⟨hb, hbs⟩ := List.forall_mem_cons.1 hbs
    rw [List.cons_append, wordsOf_cons_blank hb, ih hbs]

theorem wordsFrom_word_append (hw : ∀ c ∈ w, isBlank c = false) (v cs : List Char) :
    wordsFrom v (w ++ cs) = wordsFrom (w.reverse ++ v) cs := by
  induction w generalizing v with
  | nil => rfl
  | cons c w ih =>
    obtain ⟨hc, hw⟩ := List.forall_mem_cons.1 hw
    rw [List.cons_append, wordsFrom, if_neg (by simp [hc]), ih hw]
    simp

theorem wordsOf_word (hne : w ≠ []) (hw : ∀ c ∈ w, isBlank c = false) : wordsOf w = [w] := by
  have hread := wordsFrom_word_append hw [] []
  rw [List.append_nil, List.append_nil] at hread
  rw [wordsOf, hread]
  simp [wordsFrom, hne]

theorem HasWords.wordsOf_eq (h : HasWords cs ws) : wordsOf cs = ws := by
  induction h with
  | blanks h => simpa using wordsOf_blanks_append h []
  | @word bs w rest ws hbs hne hw hrest h ih =>
    rw [List.append_assoc, wordsOf_blanks_append hbs]
    cases rest with
    | nil =>
      rw [List.append_nil, wordsOf_word hne hw, ← ih]
      rfl
    | cons b rest =>
      have hb : isBlank b = true := hrest b rfl
      rw [wordsOf_append_cons hb, wordsOf_word hne hw, ← ih, wordsOf_cons_blank hb]
      rfl

theorem HasWords.cons_blank (hb : isBlank b = true) (h : HasWords cs ws) : HasWords (b :: cs) ws := by
  cases h with
  | blanks h => exact .blanks (List.forall_mem_cons.2 ⟨hb, h⟩)
  | word hbs hne hw hrest h =>
    exact .word (List.forall_mem_cons.2 ⟨hb, hbs⟩) hne hw hrest h

theorem hasWords_reverse (hne : w ≠ []) (hw : ∀ c ∈ w, isBlank c = false)
    (hcs : ∀ c ∈ cs.head?, isBlank c = true) (h : HasWords cs ws) :
    HasWords (w.reverse ++ cs) (w.reverse :: ws) := by
  rw [← List.nil_append w.reverse]
  exact .word (by simp) (by simpa using hne) (by simpa using hw) hcs h

theorem hasWords_wordsFrom (hw : ∀ c ∈ w, isBlank c = false) (cs : List Char) :
    HasWords (w.reverse ++ cs) (wordsFrom w cs) := by
  induction cs generalizing w with
  | nil =>
    rw [wordsFrom]
    by_cases hne : w = []
    · subst hne
      exact .blanks (by simp)
    · have hnone : HasWords [] [] := .blanks (by simp)
      simpa [hne] using hasWords_reverse hne hw (by simp) hnone
  | cons c cs ih =>
    rw [wordsFrom]
    cases hc : isBlank c with
    | true =>
      have hrest : HasWords (c :: cs) (wordsFrom [] cs) := (ih (w := []) (by simp)).cons_blank hc
      by_cases hne : w = []
      · subst hne
        exact hrest
      · simpa [hne] using hasWords_reverse hne hw (by simpa using hc) hrest
    | false =>
      have hword := ih (w := c :: w) (List.forall_mem_cons.2 ⟨hc, hw⟩)
      simpa using hword

/-- The words that are found in a text are its words. -/
theorem hasWords_iff : HasWords cs ws ↔ wordsOf cs = ws :=
  ⟨HasWords.wordsOf_eq, fun h => h ▸ hasWords_wordsFrom (w := []) (by simp) cs⟩

/-- Each character is a blank or in a word. -/
theorem HasWords.mem_cases (h : HasWords cs ws) (hc : c ∈ cs) :
    isBlank c = true ∨ ∃ w ∈ ws, c ∈ w := by
  induction h with
  | blanks h => exact .inl (h c hc)
  | @word bs w rest ws hbs hne hw hrest h ih =>
    rw [List.mem_append, List.mem_append] at hc
    rcases hc with (hc | hc) | hc
    · exact .inl (hbs c hc)
    · exact .inr ⟨w, List.mem_cons_self, hc⟩
    · obtain hc | ⟨v, hv, hc⟩ := ih hc
      · exact .inl hc
      · exact .inr ⟨v, List.mem_cons_of_mem _ hv, hc⟩

section End

theorem dropBlankEnd_concat (cs : List Char) (c : Char) :
    dropBlankEnd (cs ++ [c]) = if isBlank c then dropBlankEnd cs else cs ++ [c] := by
  induction cs with
  | nil => cases h : isBlank c <;> simp [dropBlankEnd, h]
  | cons d cs ih =>
    rw [List.cons_append, dropBlankEnd, ih]
    cases h : isBlank c with
    | true => simp [dropBlankEnd]
    | false => cases cs <;> simp

theorem dropBlankEnd_eq_rdropWhile (cs : List Char) : dropBlankEnd cs = cs.rdropWhile isBlank := by
  induction cs using List.reverseRecOn with
  | nil => rfl
  | append_singleton cs c ih => rw [dropBlankEnd_concat, List.rdropWhile_concat, ih]

theorem dropBlankEnd_isPrefix (cs : List Char) : dropBlankEnd cs <+: cs := by
  rw [dropBlankEnd_eq_rdropWhile]
  exact List.rdropWhile_prefix _ _

theorem dropBlankEnd_append_blanks (hbs : ∀ c ∈ bs, isBlank c = true) (cs : List Char) :
    dropBlankEnd (cs ++ bs) = dropBlankEnd cs := by
  induction bs using List.reverseRecOn with
  | nil => rw [List.append_nil]
  | append_singleton bs b ih =>
    rw [List.forall_mem_append, List.forall_mem_singleton] at hbs
    rw [← List.append_assoc, dropBlankEnd_concat, if_pos hbs.2, ih hbs.1]

theorem dropBlankEnd_cons (hc : isBlank c = false) (cs : List Char) :
    dropBlankEnd (c :: cs) = c :: dropBlankEnd cs := by
  rw [dropBlankEnd]
  cases dropBlankEnd cs <;> simp [hc]

theorem dropBlankEnd_append_of_not_blank (hds : ¬∀ c ∈ ds, isBlank c = true) (cs : List Char) :
    dropBlankEnd (cs ++ ds) = cs ++ dropBlankEnd ds := by
  induction ds using List.reverseRecOn with
  | nil => simp at hds
  | append_singleton ds d ih =>
    rw [← List.append_assoc, dropBlankEnd_concat, dropBlankEnd_concat]
    cases hd : isBlank d with
    | true =>
      have hrest : ¬∀ c ∈ ds, isBlank c = true := fun h =>
        hds (List.forall_mem_append.2 ⟨h, by simpa using hd⟩)
      simpa using ih hrest
    | false => simp

/-- The blanks at the end belong to no word. -/
@[simp] theorem wordsOf_dropBlankEnd (cs : List Char) : wordsOf (dropBlankEnd cs) = wordsOf cs := by
  induction cs using List.reverseRecOn with
  | nil => rfl
  | append_singleton cs c ih =>
    rw [dropBlankEnd_concat]
    split
    · rename_i hc
      rw [ih, wordsOf_append_blank hc]
    · rfl

end End

end OthelloBook.Text
