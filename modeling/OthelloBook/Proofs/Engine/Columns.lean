import OthelloBook.Engine.Table
import OthelloBook.Proofs.Text.Decimals

/-!
# Columns and moves are read back

The depth of a row with its confidence, its score and each of its moves are read back from their texts.
-/
namespace OthelloBook

open Text

/-- A move is spelled as its name, in either case. -/
def Move.Spelled (m : Move) (w : List Char) : Prop := w.map Char.toLower = m.name.toList

instance (m : Move) (w : List Char) : Decidable (m.Spelled w) := inferInstanceAs (Decidable (_ = _))

namespace OutputLine

variable {w : List Char} {words : List (List Char)} {ms : List Move}

section Moves

theorem parse_of_spelled {m : Move} (h : m.Spelled w) : Move.parse (String.ofList w) = .ok m := by
  have hlower : lowerAscii (String.ofList w) = m.name := by
    rw [lowerAscii, String.toList_ofList, h, String.ofList_toList]
  rw [Move.parse, hlower]
  cases m with
  | pass => rfl
  | play q =>
    have hread : ∀ q : Square, q.name ∉ Move.passNames ∧ Square.ofChars? q.name.toList = some q := by
      decide +kernel
    obtain ⟨hpass, hsquare⟩ := hread q
    rw [Move.name, if_neg hpass, Square.parse, hsquare]
    rfl

theorem readMoves_of_spelled (h : List.Forall₂ Move.Spelled ms words) : readMoves words = .ok ms := by
  have hmap : (words.mapM fun w => Move.parse (String.ofList w)) = .ok ms := by
    induction h with
    | nil => rfl
    | cons hm _ ih =>
      rw [List.mapM_cons, parse_of_spelled hm, ih]
      rfl
  rw [readMoves, hmap]
  rfl

theorem exists_spelled (h : List.Forall₂ Move.Spelled ms words) (hw : w ∈ words) :
    ∃ m : Move, m.Spelled w := by
  induction h with
  | nil => cases hw
  | cons hm _ ih =>
    rcases List.mem_cons.1 hw with rfl | hw
    · exact ⟨_, hm⟩
    · exact ih hw

def nameChars : List Char := "abcdefgh12345678ps".toList

theorem toLower_mem_nameChars {m : Move} (h : m.Spelled w) {c : Char} (hc : c ∈ w) :
    c.toLower ∈ nameChars := by
  have hname : m.name.toList ⊆ nameChars := by
    cases m with
    | pass => decide
    | play q =>
      have hsquare : ∀ q : Square, q.name.toList ⊆ nameChars := by decide +kernel
      exact hsquare q
  apply hname
  rw [← h]
  exact List.mem_map_of_mem hc

theorem length_of_spelled {m : Move} (h : m.Spelled w) : w.length = 2 := by
  have hname : m.name.toList.length = 2 := by
    cases m with
    | pass => rfl
    | play q => rw [Move.name, Square.name, String.toList_ofList]; rfl
  rw [← hname, ← h, List.length_map]

end Moves

section Columns

/-- The depth of a row, with a confidence unless it is certain. -/
def depthColumn (depth : ℕ) : Option ℕ → List Char
  | none => Nat.toDigits 10 depth
  | some confidence => Nat.toDigits 10 depth ++ '@' :: (Nat.toDigits 10 confidence ++ ['%'])

theorem cutAt_of_not_mem {α : Type*} [DecidableEq α] {mark : α} {xs : List α} (h : mark ∉ xs) :
    cutAt mark xs = (xs, none) := by
  induction xs with
  | nil => rfl
  | cons x xs ih =>
    rw [List.mem_cons, not_or] at h
    rw [cutAt, if_neg (Ne.symm h.1), ih h.2]

theorem cutAt_append_cons {α : Type*} [DecidableEq α] {mark : α} {xs : List α} (h : mark ∉ xs)
    (ys : List α) : cutAt mark (xs ++ mark :: ys) = (xs, some ys) := by
  induction xs with
  | nil => simp [cutAt]
  | cons x xs ih =>
    rw [List.mem_cons, not_or] at h
    rw [List.cons_append, cutAt, if_neg (Ne.symm h.1), ih h.2]

theorem not_mem_toDigits {c : Char} (hc : c.isDigit = false) (n : ℕ) : c ∉ Nat.toDigits 10 n := by
  intro h
  rw [isDigit_toDigits n c h] at hc
  cases hc

/-- The sign after a confidence is taken off. -/
theorem dropWhile_percent (n : ℕ) :
    ((Nat.toDigits 10 n ++ ['%']).reverse.dropWhile (· = '%')).reverse = Nat.toDigits 10 n := by
  have hhead : ∀ c ∈ (Nat.toDigits 10 n).reverse.head?, ¬c = '%' := by
    intro c hc heq
    have hmem := List.mem_reverse.1 (List.mem_of_mem_head? hc)
    exact not_mem_toDigits rfl n (heq ▸ hmem)
  have hdrop : (Nat.toDigits 10 n).reverse.dropWhile (· = '%') = (Nat.toDigits 10 n).reverse := by
    cases hds : (Nat.toDigits 10 n).reverse with
    | nil => rfl
    | cons c cs =>
      rw [hds] at hhead
      rw [List.dropWhile_cons_of_neg (by simpa using hhead c rfl)]
  rw [List.reverse_append, List.reverse_singleton, List.singleton_append,
    List.dropWhile_cons_of_pos (by decide), hdrop, List.reverse_reverse]

theorem readColumns_eq {depth : ℕ} {confidence : Option ℕ} {score : ℤ} (hdepth : depth ≤ 255)
    (hconfidence : ∀ n ∈ confidence, n ≤ 255) (hlow : -128 ≤ score) (hhigh : score ≤ 127) :
    readColumns (depthColumn depth confidence) (toString score).toList =
      .ok (depth, confidence.getD 100, score) := by
  have hscore : intUpTo? 127 (toString score).toList = some score := intUpTo?_toString hlow hhigh
  cases confidence with
  | none =>
    rw [depthColumn, readColumns, cutAt_of_not_mem (not_mem_toDigits rfl _)]
    simp only [natUpTo?_toDigits hdepth, Option.map_none, Option.elim_none, hscore, Option.getD_none]
  | some n =>
    rw [depthColumn, readColumns, cutAt_append_cons (not_mem_toDigits rfl _)]
    simp only [natUpTo?_toDigits hdepth, Option.map_some, Option.elim_some, dropWhile_percent,
      natUpTo?_toDigits (hconfidence n rfl), hscore, Option.getD_some]

theorem isBound_toString (score : ℤ) : isBound (toString score).toList = false := by
  cases score with
  | ofNat n =>
    rw [Int.ofNat_eq_natCast, toList_toString_natCast]
    cases hds : Nat.toDigits 10 n with
    | nil => rfl
    | cons c cs =>
      have hne : ∀ mark : Char, mark.isDigit = false → c ≠ mark := by
        rintro mark hmark rfl
        exact not_mem_toDigits hmark n (hds ▸ List.mem_cons_self)
      simp [isBound, hne '<' rfl, hne '>' rfl]
  | negSucc n =>
    rw [toList_toString_negSucc]
    rfl

end Columns

end OutputLine
end OthelloBook
