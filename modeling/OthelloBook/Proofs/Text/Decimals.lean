import Mathlib.Data.Nat.Digits.Defs
import OthelloBook.Text.Numeral

/-!
# Decimal numerals are read back

An integer is written with decimal digits, after a minus sign if it is negative, and is read back where
it is not too large for its place.
-/
namespace OthelloBook.Text

variable {ds : List Char}

theorem isDigit_toDigits (n : ℕ) : ∀ c ∈ Nat.toDigits 10 n, c.isDigit = true :=
  fun _ hc => Nat.isDigit_of_mem_toDigits (by decide) (by decide) hc

theorem toList_toString_natCast (n : ℕ) : (toString (n : ℤ)).toList = Nat.toDigits 10 n :=
  Nat.toList_repr

theorem toList_toString_negSucc (n : ℕ) :
    (toString (Int.negSucc n)).toList = '-' :: Nat.toDigits 10 (n + 1) := by
  have hrepr : toString (Int.negSucc n) = "-" ++ (n + 1).repr := rfl
  rw [hrepr, String.toList_append, Nat.toList_repr]
  rfl

/-- A numeral without a sign does not begin with what is no digit. -/
theorem head?_ne_of_isDigit {c : Char} (hc : c.isDigit = false) (hds : ∀ c ∈ ds, c.isDigit = true) :
    ds.head? ≠ some c := by
  intro h
  have hdigit := hds c (List.mem_of_mem_head? h)
  rw [hc] at hdigit
  cases hdigit

theorem head?_ne_minus (hds : ∀ c ∈ ds, c.isDigit = true) : ds.head? ≠ some '-' :=
  head?_ne_of_isDigit rfl hds

theorem digitValue?_of_isDigit {c : Char} (h : c.isDigit = true) :
    digitValue? 10 c = some (c.toNat - '0'.toNat) := by
  obtain ⟨hlow, hhigh⟩ : '0' ≤ c ∧ c ≤ '9' := by simpa [Char.isDigit, Char.le_def] using h
  have hlt : c.toNat - '0'.toNat < 10 := by
    have hle : c.toNat ≤ '9'.toNat := hhigh
    change c.toNat - 48 < 10
    change c.toNat ≤ 57 at hle
    omega
  simpa [digitValue?, hlow, hhigh] using hlt

theorem digitsFrom?_of_isDigit (hds : ∀ c ∈ ds, c.isDigit = true) (acc : ℕ) :
    digitsFrom? 10 acc ds = some (Nat.ofDigitChars 10 ds acc) := by
  induction ds generalizing acc with
  | nil => rfl
  | cons c ds ih =>
    obtain ⟨hc, hds⟩ := List.forall_mem_cons.1 hds
    rw [digitsFrom?, digitValue?_of_isDigit hc, Nat.ofDigitChars_cons]
    exact ih hds _

theorem digits?_toDigits (n : ℕ) : digits? 10 (Nat.toDigits 10 n) = some n := by
  rw [digits?]
  · rw [digitsFrom?_of_isDigit (isDigit_toDigits n), Nat.ofDigitChars_ten_toDigits]
  · exact Nat.toDigits_ne_nil

theorem unsigned?_toDigits (n : ℕ) : unsigned? 10 (Nat.toDigits 10 n) = some n := by
  rw [unsigned?]
  · exact digits?_toDigits n
  · intro cs h
    exact head?_ne_of_isDigit rfl (isDigit_toDigits n) (congrArg List.head? h)

theorem natUpTo?_toDigits {n max : ℕ} (h : n ≤ max) : natUpTo? max (Nat.toDigits 10 n) = some n := by
  rw [natUpTo?, unsigned?_toDigits]
  simp [h]

/-- A signed number is read back from its numeral. -/
theorem intUpTo?_toString {n : ℤ} {max : ℕ} (hlow : -(max : ℤ) - 1 ≤ n) (hhigh : n ≤ max) :
    intUpTo? max (toString n).toList = some n := by
  cases n with
  | ofNat n =>
    rw [Int.ofNat_eq_natCast, toList_toString_natCast, intUpTo?]
    · rw [natUpTo?_toDigits (by simpa using hhigh)]
      rfl
    · intro cs h
      exact head?_ne_minus (isDigit_toDigits n) (congrArg List.head? h)
  | negSucc n =>
    have hn : n + 1 ≤ max + 1 := by omega
    rw [toList_toString_negSucc, intUpTo?, digits?_toDigits]
    simp only [Option.filter_some, hn]
    rfl

end OthelloBook.Text
