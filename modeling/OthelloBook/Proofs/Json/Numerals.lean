import Mathlib.Algebra.Group.Int.Defs
import Mathlib.Algebra.Group.Nat.Defs
import Mathlib.Data.List.TakeWhile
import OthelloBook.Json.Draft
import OthelloBook.Proofs.Text.Decimals

/-!
# Numerals are read back

An integer is written as a numeral that is read as the same integer, if it fits a word. A float is
always written as a numeral, whatever the reader makes of it. What follows a numeral in a text does
not matter, as long as it could not be a part of it.
-/
namespace OthelloBook.Json

open Text (isDigit_toDigits toList_toString_natCast toList_toString_negSucc head?_ne_minus)

/-- What may follow a value: nothing, or what comes after an item or a member. -/
def Stops (rest : List Char) : Prop := ∀ c ∈ rest.head?, c = ',' ∨ c = ']' ∨ c = '\x7d'

theorem stops_nil : Stops [] := fun c hc => by cases hc

theorem stops_cons {c : Char} (h : c = ',' ∨ c = ']' ∨ c = '\x7d') (cs : List Char) :
    Stops (c :: cs) := by
  intro d hd
  obtain rfl : c = d := by simpa using hd
  exact h

theorem Stops.head?_ne {rest : List Char} (h : Stops rest) {c : Char}
    (hc : c ≠ ',' ∧ c ≠ ']' ∧ c ≠ '\x7d') : rest.head? ≠ some c := by
  intro hhead
  rcases h c hhead with rfl | rfl | rfl <;> simp at hc

theorem Stops.not_digit {rest : List Char} (h : Stops rest) :
    ∀ c ∈ rest.head?, c.isDigit = false := by
  intro c hc
  rcases h c hc with rfl | rfl | rfl <;> rfl

namespace Literal

variable {cs ds rest : List Char} {c : Char}

def readParts? (negative : Bool) (cs : List Char) : Option (Literal × List Char) :=
  (readWhole? cs).bind fun whole => (readFraction? whole.2).bind fun fraction =>
    (readExponent? fraction.2).map fun exponent =>
      (⟨negative, whole.1, fraction.1, exponent.1⟩, exponent.2)

theorem read?_minus (cs : List Char) : read? ('-' :: cs) = readParts? true cs := by
  simp only [read?, readParts?, Option.map_eq_bind]
  rfl

theorem read?_of_ne_minus (h : cs.head? ≠ some '-') : read? cs = readParts? false cs := by
  rw [read?]
  · simp only [readParts?, Option.map_eq_bind]
    rfl
  · rintro r rfl
    exact h rfl

theorem readFraction?_of_ne (h : cs.head? ≠ some '.') : readFraction? cs = some ([], cs) := by
  rw [readFraction?]
  rintro r rfl
  exact h rfl

theorem readExponent?_of_ne (he : cs.head? ≠ some 'e') (hE : cs.head? ≠ some 'E') :
    readExponent? cs = some (none, cs) := by
  rw [readExponent?]
  · rintro r rfl
    exact he rfl
  · rintro r rfl
    exact hE rfl

theorem exponentSign_of_ne (hminus : cs.head? ≠ some '-') (hplus : cs.head? ≠ some '+') :
    exponentSign cs = (false, cs) := by
  rw [exponentSign]
  · rintro r rfl
    exact hminus rfl
  · rintro r rfl
    exact hplus rfl

section Append

theorem digits_append_of_head (h : ∀ c ∈ rest.head?, c.isDigit = false) (cs : List Char) :
    digits (cs ++ rest) = ((digits cs).1, (digits cs).2 ++ rest) := by
  induction cs with
  | nil =>
    cases rest with
    | nil => rfl
    | cons c rest => simp [digits, h c rfl]
  | cons c cs ih =>
    by_cases hc : c.isDigit = true
    · simpa [digits, hc] using ih
    · simp [digits, hc]

theorem readWhole?_append (h : Stops rest) (cs : List Char) :
    readWhole? (cs ++ rest) = (readWhole? cs).map (Prod.map id (· ++ rest)) := by
  rw [readWhole?, readWhole?, digits_append_of_head h.not_digit]
  rcases digits cs with ⟨_ | ⟨c, _ | ⟨d, ds⟩⟩, r⟩
  · rfl
  · by_cases hc : c = '0' <;> simp [hc]
  · by_cases hc : c = '0' <;> simp [hc]

theorem readFraction?_append (h : Stops rest) (cs : List Char) :
    readFraction? (cs ++ rest) = (readFraction? cs).map (Prod.map id (· ++ rest)) := by
  cases cs with
  | nil => exact readFraction?_of_ne (h.head?_ne (by decide))
  | cons c cs =>
    by_cases hc : c = '.'
    · subst hc
      rw [List.cons_append, readFraction?, readFraction?, digits_append_of_head h.not_digit]
      rcases digits cs with ⟨_ | ⟨d, ds⟩, r⟩ <;> rfl
    · rw [List.cons_append, readFraction?_of_ne (by simpa using hc),
        readFraction?_of_ne (by simpa using hc)]
      rfl

theorem exponentSign_append (h : Stops rest) (cs : List Char) :
    exponentSign (cs ++ rest) = Prod.map id (· ++ rest) (exponentSign cs) := by
  cases cs with
  | nil => exact exponentSign_of_ne (h.head?_ne (by decide)) (h.head?_ne (by decide))
  | cons c cs =>
    by_cases hminus : c = '-'
    · subst hminus
      rfl
    by_cases hplus : c = '+'
    · subst hplus
      rfl
    · rw [List.cons_append, exponentSign_of_ne (by simpa using hminus) (by simpa using hplus),
        exponentSign_of_ne (by simpa using hminus) (by simpa using hplus)]
      rfl

theorem readExponent?_append (h : Stops rest) (cs : List Char) :
    readExponent? (cs ++ rest) = (readExponent? cs).map (Prod.map id (· ++ rest)) := by
  cases cs with
  | nil => exact readExponent?_of_ne (h.head?_ne (by decide)) (h.head?_ne (by decide))
  | cons c cs =>
    by_cases hmark : c = 'e' ∨ c = 'E'
    · rcases hmark with rfl | rfl <;>
        simp only [List.cons_append, readExponent?, exponentSign_append h, Prod.map,
          digits_append_of_head h.not_digit] <;>
        rcases digits (exponentSign cs).2 with ⟨_ | ⟨d, ds⟩, r⟩ <;> rfl
    · rw [not_or] at hmark
      rw [List.cons_append, readExponent?_of_ne (by simpa using hmark.1) (by simpa using hmark.2),
        readExponent?_of_ne (by simpa using hmark.1) (by simpa using hmark.2)]
      rfl

theorem readParts?_append (h : Stops rest) (negative : Bool) (cs : List Char) :
    readParts? negative (cs ++ rest) =
      (readParts? negative cs).map (Prod.map id (· ++ rest)) := by
  rw [readParts?, readParts?, readWhole?_append h]
  cases readWhole? cs with
  | none => rfl
  | some whole =>
    simp only [Option.map_some, Option.bind_some, Prod.map, readFraction?_append h]
    cases readFraction? whole.2 with
    | none => rfl
    | some fraction =>
      simp only [Option.map_some, Option.bind_some, Prod.map, readExponent?_append h]
      cases readExponent? fraction.2 <;> rfl

/-- A numeral is read alike whatever follows it. -/
theorem read?_append (h : Stops rest) (cs : List Char) :
    read? (cs ++ rest) = (read? cs).map (Prod.map id (· ++ rest)) := by
  by_cases hminus : cs.head? = some '-'
  · obtain ⟨r, rfl⟩ := List.head?_eq_some_iff.1 hminus
    rw [List.cons_append, read?_minus, read?_minus, readParts?_append h]
  · have happend : (cs ++ rest).head? ≠ some '-' := by
      cases cs with
      | nil => exact h.head?_ne (by decide)
      | cons c cs => exact hminus
    rw [read?_of_ne_minus hminus, read?_of_ne_minus happend, readParts?_append h]

end Append

section Integers

/-- Digits that may stand before the point: without a zero in front of others. -/
structure Whole (ds : List Char) : Prop where
  digit : ∀ c ∈ ds, c.isDigit = true
  ne_nil : ds ≠ []
  leading : ds.head? = some '0' → ds = ['0']

theorem digits_append (hds : ∀ c ∈ ds, c.isDigit = true)
    (hrest : ∀ c ∈ rest.head?, c.isDigit = false) : digits (ds ++ rest) = (ds, rest) := by
  have hall : digits ds = (ds, []) := by
    rw [digits, List.takeWhile_eq_self_iff.2 hds, List.dropWhile_eq_nil_iff.2 hds]
  rw [digits_append_of_head hrest, hall]
  rfl

theorem Whole.readWhole?_append (h : Whole ds) (hrest : ∀ c ∈ rest.head?, c.isDigit = false) :
    readWhole? (ds ++ rest) = some (ds, rest) := by
  rw [readWhole?, digits_append h.digit hrest]
  rcases ds with _ | ⟨c, _ | ⟨d, ds⟩⟩
  · exact absurd rfl h.ne_nil
  · by_cases hc : c = '0' <;> simp [hc]
  · have hc : c ≠ '0' := by
      rintro rfl
      simpa using h.leading rfl
    simp [hc]

theorem head?_toDigits {n : ℕ} (hn : n ≠ 0) : (Nat.toDigits 10 n).head? ≠ some '0' := by
  induction n using Nat.strongRecOn with
  | ind n ih =>
    rw [Nat.toDigits_eq_if (by decide)]
    split
    · rename_i hlt
      have hdigit : ∀ m < 10, m ≠ 0 → [m.digitChar].head? ≠ some '0' := by decide
      exact hdigit n hlt hn
    · have hhead := ih (n / 10) (by omega) (by omega)
      cases hds : Nat.toDigits 10 (n / 10) with
      | nil => exact absurd hds Nat.toDigits_ne_nil
      | cons c cs =>
        rw [hds] at hhead
        exact hhead

theorem whole_toDigits (n : ℕ) : Whole (Nat.toDigits 10 n) where
  digit := isDigit_toDigits n
  ne_nil := Nat.toDigits_ne_nil
  leading h := by
    by_cases hn : n = 0
    · rw [hn, Nat.toDigits_zero]
    · exact absurd h (head?_toDigits hn)

theorem Whole.readParts?_eq (h : Whole ds) (negative : Bool) :
    readParts? negative ds = some (⟨negative, ds, [], none⟩, []) := by
  have hwhole : readWhole? (ds ++ []) = some (ds, []) := h.readWhole?_append (by simp)
  rw [List.append_nil] at hwhole
  rw [readParts?, hwhole]
  rfl

theorem le_ofDigitChars (acc : ℕ) (ds : List Char) : acc ≤ Nat.ofDigitChars 10 ds acc := by
  induction ds generalizing acc with
  | nil => exact Nat.le_refl acc
  | cons c ds ih =>
    rw [Nat.ofDigitChars_cons]
    exact Nat.le_trans (by omega) (ih _)

/-- Digits are gathered to their number as long as it fits a word. -/
theorem accumulate_eq {acc : ℕ} (h : Nat.ofDigitChars 10 ds acc ≤ maxWord) :
    accumulate acc ds = (Nat.ofDigitChars 10 ds acc, 0) := by
  induction ds generalizing acc with
  | nil => rfl
  | cons c ds ih =>
    rw [Nat.ofDigitChars_cons] at h ⊢
    rw [accumulate, if_pos (Nat.le_trans (le_ofDigitChars _ ds) h), ih h]

theorem accumulate_toDigits {n : ℕ} (h : n ≤ maxWord) :
    accumulate 0 (Nat.toDigits 10 n) = (n, 0) := by
  have hn : Nat.ofDigitChars 10 (Nat.toDigits 10 n) 0 = n := Nat.ofDigitChars_ten_toDigits
  rw [accumulate_eq (hn.symm ▸ h), hn]

/-- The integers that a reader keeps as such. -/
def Fits (n : ℤ) : Prop := -(2 ^ 63) ≤ n ∧ n < 2 ^ 64

theorem number_toDigits {n : ℕ} (h : n < 2 ^ 64) :
    number ⟨false, Nat.toDigits 10 n, [], none⟩ = .int n := by
  have hword : n ≤ maxWord := Nat.le_pred_of_lt h
  simp [number, accumulate_toDigits hword]

theorem number_minus_toDigits {n : ℕ} (hn : 0 < n) (h : n ≤ 2 ^ 63) :
    number ⟨true, Nat.toDigits 10 n, [], none⟩ = .int (-(n : ℤ)) := by
  have hword : n ≤ maxWord := Nat.le_trans h (by decide)
  have hle : n ≤ 9223372036854775808 := h
  simp only [number, accumulate_toDigits hword]
  rw [if_neg (by simp), if_pos (by simp [hn, hle])]

/-- An integer is read back. -/
theorem exists_read?_toString {n : ℤ} (h : Fits n) :
    ∃ l, read? (toString n).toList = some (l, []) ∧ l.number = .int n := by
  obtain ⟨hlow, hhigh⟩ := h
  cases n with
  | ofNat n =>
    have hn : n < 2 ^ 64 := Int.ofNat_lt.1 hhigh
    refine ⟨⟨false, Nat.toDigits 10 n, [], none⟩, ?_, number_toDigits hn⟩
    rw [Int.ofNat_eq_natCast, toList_toString_natCast,
      read?_of_ne_minus (head?_ne_minus (isDigit_toDigits n)), (whole_toDigits n).readParts?_eq]
  | negSucc n =>
    have hn : n + 1 ≤ 2 ^ 63 := by omega
    refine ⟨⟨true, Nat.toDigits 10 (n + 1), [], none⟩, ?_,
      number_minus_toDigits (Nat.succ_pos n) hn⟩
    rw [toList_toString_negSucc, read?_minus, (whole_toDigits _).readParts?_eq]

end Integers

end Literal
end OthelloBook.Json
