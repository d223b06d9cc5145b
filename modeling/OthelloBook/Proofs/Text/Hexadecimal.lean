import Mathlib.Data.Nat.Digits.Lemmas
import OthelloBook.Position.Reader

/-!
# Numerals in base sixteen

A number that is written with a fixed count of digits in base sixteen is read back, but for the digits
beyond these. So the digits of a position are read back as the position.

What is read as a number in base sixteen: digits of either case, and a plus sign in the place of the
first of them, which then counts as a zero. The number has the digits in their order and the highest
first, so that writing it with as many digits gives them back in lower case.
-/
namespace OthelloBook

namespace Text

theorem digitValue?_hexDigit : ∀ n < 16, digitValue? 16 (hexDigit n) = some n := by decide

/-- A digit is plain text, and no sign. -/
theorem hexDigit_plain :
    ∀ n < 16, (hexDigit n).toNat < 128 ∧ hexDigit n ≠ '+' ∧ hexDigit n ≠ '-' := by decide

theorem digitsFrom?_append (base acc : Nat) (cs ds : List Char) :
    digitsFrom? base acc (cs ++ ds) = (digitsFrom? base acc cs).bind (digitsFrom? base · ds) := by
  induction cs generalizing acc with
  | nil => rfl
  | cons c cs ih =>
    rw [List.cons_append, digitsFrom?, digitsFrom?]
    cases digitValue? base c with
    | none => rfl
    | some d => exact ih _

theorem digitsFrom?_hexDigit (acc : Nat) {n : Nat} (h : n < 16) :
    digitsFrom? 16 acc [hexDigit n] = some (16 * acc + n) := by
  rw [digitsFrom?, digitValue?_hexDigit n h]
  rfl

theorem digitsFrom?_hexFixed (acc width n : Nat) :
    digitsFrom? 16 acc (hexFixed width n) = some (acc * 16 ^ width + n % 16 ^ width) := by
  induction width generalizing n with
  | zero => simp [hexFixed, digitsFrom?, Nat.mod_one]
  | succ width ih =>
    rw [hexFixed, digitsFrom?_append, ih, Option.bind_some,
      digitsFrom?_hexDigit _ (Nat.mod_lt _ (by decide)), Nat.pow_succ', Nat.mod_mul,
      Nat.mul_left_comm]
    congr 1
    omega

/-- The digits of a number are read back, if they are enough for it. -/
theorem digits?_hexFixed {width n : Nat} (hwidth : width ≠ 0) (h : n < 16 ^ width) :
    digits? 16 (hexFixed width n) = some n := by
  have hlength := length_hexFixed width n
  rw [digits?]
  · rw [digitsFrom?_hexFixed, Nat.zero_mul, Nat.zero_add, Nat.mod_eq_of_lt h]
  · intro hnil
    rw [hnil] at hlength
    exact hwidth hlength.symm

theorem plain_of_mem_hexFixed {width n : Nat} {c : Char} (h : c ∈ hexFixed width n) :
    c.toNat < 128 ∧ c ≠ '+' ∧ c ≠ '-' := by
  induction width generalizing n with
  | zero => cases h
  | succ width ih =>
    rw [hexFixed, List.mem_append, List.mem_singleton] at h
    rcases h with h | rfl
    · exact ih h
    · exact hexDigit_plain _ (Nat.mod_lt _ (by decide))

theorem unsigned?_hexFixed {width n : Nat} (hwidth : width ≠ 0) (h : n < 16 ^ width) :
    unsigned? 16 (hexFixed width n) = some n := by
  rw [unsigned?]
  · exact digits?_hexFixed hwidth h
  · intro cs hsign
    have hmem : '+' ∈ hexFixed width n := hsign ▸ List.mem_cons_self
    exact (plain_of_mem_hexFixed hmem).2.1 rfl

end Text

namespace Position

theorem unsigned?_maskText (m : Mask) : Text.unsigned? 16 (maskText m) = some m.toNat :=
  Text.unsigned?_hexFixed (by decide) m.toNat_lt

theorem toUInt64_toNat (m : Mask) : m.toNat.toUInt64 = m := UInt64.ofNat_toNat

/-- The digits of two masks are read as the position of these masks, if there is one. -/
theorem parse_maskTexts (own opposing : Mask) :
    parse (String.ofList (maskText own ++ maskText opposing)) = ofMasks own opposing := by
  have hlength : ∀ m, (maskText m).length = 16 := fun m => Text.length_hexFixed ..
  have hplain : (maskText own ++ maskText opposing).any (fun c => 128 ≤ c.toNat) = false := by
    rw [List.any_eq_false]
    intro c hc
    rw [decide_eq_true_eq, Nat.not_le]
    rcases List.mem_append.1 hc with hc | hc
    · exact (Text.plain_of_mem_hexFixed hc).1
    · exact (Text.plain_of_mem_hexFixed hc).1
  rw [parse, String.toList_ofList, hplain, List.take_left' (hlength own),
    List.drop_left' (hlength own), unsigned?_maskText, unsigned?_maskText,
    if_neg (by simp [hlength])]
  dsimp only
  rw [toUInt64_toNat, toUInt64_toNat]

/-- A position is read back from its digits. -/
theorem parse_text (p : Position) : parse p.text = .ok p := by
  rw [text, textChars, parse_maskTexts, ofMasks, ofMasks?, dif_pos p.disjoint]

end Position

namespace Text

def hexDigits : List Char := "0123456789abcdef".toList

def IsHexDigit (c : Char) : Prop := c.toLower ∈ hexDigits

instance (c : Char) : Decidable (IsHexDigit c) := inferInstanceAs (Decidable (_ ∈ _))

def hexValue (c : Char) : ℕ := hexDigits.idxOf c.toLower

def hexNumber (cs : List Char) : ℕ := Nat.ofDigits 16 (cs.map hexValue).reverse

/-- A plus sign at the beginning of a numeral stands for a leading zero. -/
def signAsZero : List Char → List Char
  | '+' :: cs => '0' :: cs
  | cs => cs

variable {c : Char} {cs : List Char} {n : ℕ}

section Digits

theorem toLower_of_not_ascii (h : 128 ≤ c.toNat) : c.toLower = c := by
  refine dif_neg fun hc => ?_
  have hle : c.toNat ≤ 'Z'.toNat := hc.2
  exact absurd (h.trans hle) (by decide)

theorem IsHexDigit.toNat_lt (h : IsHexDigit c) : c.toNat < 128 := by
  by_contra hc
  have hplain : hexDigits.all fun d => d.toNat < 128 := by decide
  rw [IsHexDigit, toLower_of_not_ascii (not_lt.1 hc)] at h
  exact hc (of_decide_eq_true (List.all_eq_true.1 hplain c h))

theorem digitValue?_of_not_ascii (h : 128 ≤ c.toNat) : digitValue? 16 c = none := by
  have hlt (d : Char) (hd : d.toNat < 128) : ¬c ≤ d := fun hle => by
    have hle : c.toNat ≤ d.toNat := hle
    omega
  simp [digitValue?, hlt]

theorem digitValue?_eq (c : Char) :
    digitValue? 16 c = if IsHexDigit c then some (hexValue c) else none := by
  -- The two functions agree on each of the first 128 characters, and none of the others is a digit.
  have hascii : ∀ n < 128, digitValue? 16 (Char.ofNat n) =
      if IsHexDigit (Char.ofNat n) then some (hexValue (Char.ofNat n)) else none := by decide +kernel
  by_cases hc : c.toNat < 128
  · simpa only [Char.ofNat_toNat] using hascii c.toNat hc
  · rw [if_neg fun h => hc h.toNat_lt, digitValue?_of_not_ascii (not_lt.1 hc)]

theorem hexValue_lt (h : IsHexDigit c) : hexValue c < 16 := List.idxOf_lt_length_of_mem h

/-- The digit of the value of a digit is the same digit in lower case. -/
theorem hexDigit_hexValue (h : IsHexDigit c) : hexDigit (hexValue c) = c.toLower := by
  have hback : hexDigits.all fun d => hexDigit (hexDigits.idxOf d) = d := by decide
  exact of_decide_eq_true (List.all_eq_true.1 hback _ h)

end Digits

theorem hexNumber_cons (c : Char) (cs : List Char) :
    hexNumber (c :: cs) = hexValue c * 16 ^ cs.length + hexNumber cs := by
  rw [hexNumber, List.map_cons, List.reverse_cons, Nat.ofDigits_append]
  simp [hexNumber, Nat.mul_comm, Nat.add_comm]

theorem hexNumber_append_singleton (cs : List Char) (c : Char) :
    hexNumber (cs ++ [c]) = hexValue c + 16 * hexNumber cs := by
  simp [hexNumber, Nat.ofDigits_cons]

theorem hexNumber_lt (h : ∀ c ∈ cs, IsHexDigit c) : hexNumber cs < 16 ^ cs.length := by
  have hdigits : ∀ d ∈ (cs.map hexValue).reverse, d < 16 := by
    simpa using fun c hc => hexValue_lt (h c hc)
  simpa [hexNumber] using Nat.ofDigits_lt_base_pow_length (by decide) hdigits

theorem digitsFrom?_eq_some_iff {acc : ℕ} :
    digitsFrom? 16 acc cs = some n ↔
      (∀ c ∈ cs, IsHexDigit c) ∧ acc * 16 ^ cs.length + hexNumber cs = n := by
  induction cs generalizing acc with
  | nil => simp [digitsFrom?, hexNumber]
  | cons c cs ih =>
    rw [digitsFrom?, digitValue?_eq]
    by_cases hc : IsHexDigit c
    · have hplace : (16 * acc + hexValue c) * 16 ^ cs.length + hexNumber cs =
          acc * 16 ^ (cs.length + 1) + (hexValue c * 16 ^ cs.length + hexNumber cs) := by ring
      simp [hc, ih, hexNumber_cons, hplace]
    · simp [hc]

theorem signAsZero_of_head?_ne (h : cs.head? ≠ some '+') : signAsZero cs = cs := by
  rw [signAsZero]
  rintro ds rfl
  exact h rfl

theorem unsigned?_of_head?_ne (h : cs.head? ≠ some '+') : unsigned? 16 cs = digits? 16 cs := by
  rw [unsigned?]
  rintro ds rfl
  exact h rfl

theorem unsigned?_eq_digitsFrom? (h : 1 < cs.length) :
    unsigned? 16 cs = digitsFrom? 16 0 (signAsZero cs) := by
  match cs, h with
  | c :: d :: ds, _ =>
    by_cases hc : c = '+'
    · subst hc
      rfl
    · have hhead : (c :: d :: ds).head? ≠ some '+' := by simpa using hc
      rw [signAsZero_of_head?_ne hhead, unsigned?_of_head?_ne hhead]
      rfl

@[simp] theorem length_signAsZero (cs : List Char) : (signAsZero cs).length = cs.length := by
  rw [signAsZero.eq_def]
  split <;> rfl

/-- A numeral has no characters but its digits and the sign. -/
theorem toNat_lt_of_mem (h : ∀ c ∈ signAsZero cs, IsHexDigit c) (hc : c ∈ cs) : c.toNat < 128 := by
  rw [signAsZero.eq_def] at h
  split at h
  · obtain rfl | hc := List.mem_cons.1 hc
    · decide
    · exact (h c (List.mem_cons_of_mem _ hc)).toNat_lt
  · exact (h c hc).toNat_lt

/-- The numerals of at least two characters, and what they are read as. -/
theorem unsigned?_eq_some_iff (h : 1 < cs.length) :
    unsigned? 16 cs = some n ↔
      (∀ c ∈ signAsZero cs, IsHexDigit c) ∧ hexNumber (signAsZero cs) = n := by
  rw [unsigned?_eq_digitsFrom? h, digitsFrom?_eq_some_iff, Nat.zero_mul, Nat.zero_add]

/-- A number is written with its digits in lower case. -/
theorem hexFixed_hexNumber (h : ∀ c ∈ cs, IsHexDigit c) :
    hexFixed cs.length (hexNumber cs) = cs.map Char.toLower := by
  induction cs using List.reverseRecOn with
  | nil => rfl
  | append_singleton cs c ih =>
    rw [List.forall_mem_append, List.forall_mem_singleton] at h
    obtain ⟨hcs, hc⟩ := h
    have hlow : (hexValue c + 16 * hexNumber cs) % 16 = hexValue c := by
      rw [Nat.add_mul_mod_self_left, Nat.mod_eq_of_lt (hexValue_lt hc)]
    have hhigh : (hexValue c + 16 * hexNumber cs) / 16 = hexNumber cs := by
      rw [Nat.add_mul_div_left _ _ (by decide), Nat.div_eq_of_lt (hexValue_lt hc), Nat.zero_add]
    rw [List.length_append, List.length_singleton, hexNumber_append_singleton, hexFixed, hlow, hhigh,
      ih hcs, hexDigit_hexValue hc, List.map_append, List.map_singleton]

end Text
end OthelloBook
