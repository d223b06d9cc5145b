import OthelloBook.Json.Value
import OthelloBook.Proofs.Json.Numerals

/-!
# Floats are written as numerals

A decimal is written with a point or with an exponent. Zeros are put after the digits only where the
digits do not stand for zero themselves, so that the text is a numeral of the format for every float.
Which float a reader takes it for is another question.
-/
namespace OthelloBook

open Json
open Text (isDigit_toDigits toList_toString_natCast toList_toString_negSucc head?_ne_minus)

namespace Decimal

/-- Zeros may be put after the digits. -/
def Digits.Regular (d : Digits) : Prop := 0 < d.significand ∨ d.exponent ≤ 0

variable {i : Interval} {d : Digits} {e : ℤ} {n : ℕ}

theorem significand_pos_of_onGrid? (h : onGrid? i e = some d) : 0 < d.significand := by
  simp only [onGrid?] at h
  split at h
  · rename_i hfits
    rw [← Option.some.inj h]
    simp only [Bool.and_eq_true, decide_eq_true_eq] at hfits
    exact hfits.1.1
  · split at h
    · rw [← Option.some.inj h]
      exact Nat.succ_pos _
    · cases h

theorem regular_firstOnGrid (i : Interval) (h : e ≤ n) : (firstOnGrid i n e).Regular := by
  induction n generalizing e with
  | zero => exact .inr (by simpa [firstOnGrid] using h)
  | succ n ih =>
    rw [firstOnGrid]
    cases hgrid : onGrid? i e with
    | some d => exact .inl (significand_pos_of_onGrid? hgrid)
    | none => exact ih (by omega)

theorem Digits.Regular.trim (h : d.Regular) (n : ℕ) : (d.trim n).Regular := by
  induction n generalizing d with
  | zero => exact h
  | succ n ih =>
    rw [Digits.trim]
    split
    · rename_i hten
      exact ih (.inl (by simp only; omega))
    · exact h

open Literal

variable {negative : Bool} {ws fs tail : List Char}

theorem readExponent?_digits (hfs : ∀ c ∈ fs, c.isDigit = true) (hne : fs ≠ []) :
    readExponent? ('e' :: fs) = some (some (false, fs), []) ∧
      readExponent? ('e' :: '-' :: fs) = some (some (true, fs), []) := by
  have hdigits : digits fs = (fs, []) := by
    have happend : digits (fs ++ []) = (fs, []) := digits_append hfs (by simp)
    rwa [List.append_nil] at happend
  obtain ⟨c, cs, rfl⟩ := List.exists_cons_of_ne_nil hne
  have hplus : (c :: cs).head? ≠ some '+' := by
    intro h
    have hc := hfs c List.mem_cons_self
    rw [List.head?_cons, Option.some.injEq] at h
    rw [h] at hc
    exact absurd hc (by decide)
  constructor
  · simp only [readExponent?, exponentSign_of_ne (head?_ne_minus hfs) hplus, hdigits]
  · simp only [readExponent?, exponentSign, hdigits]

theorem exists_readExponent?_toString (z : ℤ) :
    ∃ x, readExponent? ('e' :: (toString z).toList) = some (x, []) := by
  cases z with
  | ofNat n =>
    rw [Int.ofNat_eq_natCast, toList_toString_natCast]
    exact ⟨_, (readExponent?_digits (isDigit_toDigits n) Nat.toDigits_ne_nil).1⟩
  | negSucc n =>
    rw [toList_toString_negSucc]
    exact ⟨_, (readExponent?_digits (isDigit_toDigits (n + 1)) Nat.toDigits_ne_nil).2⟩

/-- Digits before and after a point, and perhaps an exponent, are a numeral. -/
theorem readParts?_point (hws : Whole ws) (hfs : ∀ c ∈ fs, c.isDigit = true) (hne : fs ≠ [])
    (htail : ∀ c ∈ tail.head?, c.isDigit = false) {x : Option (Bool × List Char)}
    (hexponent : readExponent? tail = some (x, [])) :
    readParts? negative (ws ++ '.' :: (fs ++ tail)) = some (⟨negative, ws, fs, x⟩, []) := by
  have hfraction : readFraction? ('.' :: (fs ++ tail)) = some (fs, tail) := by
    rw [readFraction?, digits_append hfs htail]
    obtain ⟨c, cs, rfl⟩ := List.exists_cons_of_ne_nil hne
    rfl
  rw [readParts?, hws.readWhole?_append (by simp)]
  simp only [Option.bind_some, hfraction, hexponent, Option.map_some]

/-- Digits before and after a point are a numeral. -/
theorem readParts?_point_end (hws : Whole ws) (hfs : ∀ c ∈ fs, c.isDigit = true) (hne : fs ≠ []) :
    readParts? negative (ws ++ '.' :: fs) = some (⟨negative, ws, fs, none⟩, []) := by
  have hparts : readParts? negative (ws ++ '.' :: (fs ++ [])) =
      some (⟨negative, ws, fs, none⟩, []) := readParts?_point hws hfs hne (by simp) rfl
  rwa [List.append_nil] at hparts

/-- Digits and an exponent are a numeral. -/
theorem readParts?_exponent (hws : Whole ws) {x : Option (Bool × List Char)}
    (hexponent : readExponent? ('e' :: tail) = some (x, [])) :
    readParts? negative (ws ++ 'e' :: tail) = some (⟨negative, ws, [], x⟩, []) := by
  have hfraction : readFraction? ('e' :: tail) = some ([], 'e' :: tail) :=
    readFraction?_of_ne (by simp)
  rw [readParts?, hws.readWhole?_append (by simp)]
  simp only [Option.bind_some, hfraction, hexponent, Option.map_some]

theorem isDigit_zeros (n : ℕ) : ∀ c ∈ List.replicate n '0', c.isDigit = true := by
  intro c hc
  rw [List.eq_of_mem_replicate hc]
  rfl

theorem whole_singleton {c : Char} (h : c.isDigit = true) : Whole [c] where
  digit := by simpa using h
  ne_nil := by simp
  leading hc := by simpa using hc

theorem head?_append_of_ne_nil (h : ws ≠ []) : (ws ++ fs).head? = ws.head? := by
  obtain ⟨c, cs, rfl⟩ := List.exists_cons_of_ne_nil h
  rfl

theorem exists_readParts? (negative : Bool) (h : d.Regular) :
    ∃ l, readParts? negative d.text = some (l, []) := by
  have hds := whole_toDigits d.significand
  have hpositive : 0 < d.significand → (Nat.toDigits 10 d.significand).head? ≠ some '0' :=
    fun hpos => head?_toDigits (by omega)
  rw [Digits.text]
  generalize Nat.toDigits 10 d.significand = ds at hds hpositive
  -- Only zero begins with a zero, and nothing is put after it.
  have hzero : ds.head? = some '0' → ds = ['0'] ∧ d.exponent ≤ 0 := fun hhead =>
    ⟨hds.leading hhead, h.resolve_left fun hpos => hpositive hpos hhead⟩
  dsimp only
  split_ifs with hlarge hpoint hsmall
  · have hws : Whole (ds ++ List.replicate d.exponent.toNat '0') := by
      refine ⟨List.forall_mem_append.2 ⟨hds.digit, isDigit_zeros _⟩, by simp [hds.ne_nil],
        fun hhead => ?_⟩
      rw [head?_append_of_ne_nil hds.ne_nil] at hhead
      obtain ⟨hsingle, hexponent⟩ := hzero hhead
      rw [Int.toNat_of_nonpos hexponent, List.replicate_zero, List.append_nil, hsingle]
    exact ⟨_, readParts?_point_end hws (isDigit_zeros 1) (by simp)⟩
  · obtain ⟨p, hp⟩ : ∃ p : ℕ, (ds.length : ℤ) + d.exponent = p :=
      ⟨((ds.length : ℤ) + d.exponent).toNat, by omega⟩
    have hlt : p < ds.length := by omega
    rw [hp, Int.toNat_natCast]
    have hws : Whole (ds.take p) := by
      refine ⟨fun c hc => hds.digit c (List.mem_of_mem_take hc), ?_, fun hhead => ?_⟩
      · rw [Ne, List.take_eq_nil_iff, not_or]
        exact ⟨by omega, hds.ne_nil⟩
      · rw [List.head?_take, if_neg (by omega)] at hhead
        rw [(hzero hhead).1, List.length_singleton] at hlt
        omega
    have hfs : ds.drop p ≠ [] := by
      rw [Ne, List.drop_eq_nil_iff]
      omega
    exact ⟨_, readParts?_point_end hws (fun c hc => hds.digit c (List.mem_of_mem_drop hc)) hfs⟩
  · have hzeros : ∀ c ∈ List.replicate (-((ds.length : ℤ) + d.exponent)).toNat '0' ++ ds,
        c.isDigit = true := List.forall_mem_append.2 ⟨isDigit_zeros _, hds.digit⟩
    have hne : List.replicate (-((ds.length : ℤ) + d.exponent)).toNat '0' ++ ds ≠ [] := by
      simp [hds.ne_nil]
    have hws : Whole ['0'] := whole_singleton (by decide)
    exact ⟨_, readParts?_point_end hws hzeros hne⟩
  · obtain ⟨x, hexponent⟩ := exists_readExponent?_toString ((ds.length : ℤ) + d.exponent - 1)
    obtain ⟨c, cs, rfl⟩ := List.exists_cons_of_ne_nil hds.ne_nil
    have hc : Whole [c] := whole_singleton (hds.digit c List.mem_cons_self)
    cases cs with
    | nil => exact ⟨_, readParts?_exponent hc hexponent⟩
    | cons c' cs =>
      exact ⟨_, readParts?_point hc (fun c hc => hds.digit c (List.mem_cons_of_mem _ hc)) (by simp)
        (by simp) hexponent⟩

theorem head?_ne_minus_of_readParts? {l : Literal} (h : readParts? negative ws = some (l, tail)) :
    ws.head? ≠ some '-' := by
  intro hhead
  obtain ⟨r, rfl⟩ := List.head?_eq_some_iff.1 hhead
  cases h

/-- Every float is written as a numeral. -/
theorem exists_read?_text (x : Float) : ∃ l, read? (text x).toList = some (l, []) := by
  have hmagnitude : ∀ negative, ∃ l, readParts? negative
      (if x == 0 then ['0', '.', '0'] else ((shortest x.abs).trim 20).text) = some (l, []) := by
    intro negative
    split
    · exact ⟨_, rfl⟩
    · exact exists_readParts? negative ((regular_firstOnGrid _ (by decide)).trim 20)
  rw [text, String.toList_ofList]
  split
  · rw [List.singleton_append, read?_minus]
    exact hmagnitude true
  · obtain ⟨l, hl⟩ := hmagnitude false
    rw [List.nil_append, read?_of_ne_minus (head?_ne_minus_of_readParts? hl)]
    exact ⟨l, hl⟩

end Decimal
end OthelloBook
