import OthelloBook.Proofs.Position.Bytes
import OthelloBook.Proofs.Text.Hexadecimal

/-!
# Which texts are positions

A text of 32 characters is read as two numerals of sixteen digits, the discs of the mover and those of
the other side. A numeral may have a plus sign for its first digit, though, so that such a position has
more texts than its digits in either case. All other texts are refused.
-/
namespace OthelloBook.Position

open Text

/-- The two numerals of a text, with a zero for a plus sign at the beginning. -/
def numerals (s : String) : List Char × List Char :=
  (signAsZero (s.toList.take 16), signAsZero (s.toList.drop 16))

variable {s : String} {p : Position}

theorem length_numerals (h : s.length = 32) :
    (numerals s).1.length = 16 ∧ (numerals s).2.length = 16 := by
  rw [← String.length_toList] at h
  simp [numerals, h]

theorem numerals_of_not_mem (h : '+' ∉ s.toList) :
    numerals s = (s.toList.take 16, s.toList.drop 16) := by
  have hhead {cs : List Char} (hcs : cs ⊆ s.toList) : cs.head? ≠ some '+' := fun hplus =>
    h (hcs (List.mem_of_head? hplus))
  rw [numerals, signAsZero_of_head?_ne (hhead (List.take_subset _ _)),
    signAsZero_of_head?_ne (hhead (List.drop_subset _ _))]

def HasDigits (s : String) : Prop := ∀ c ∈ (numerals s).1 ++ (numerals s).2, IsHexDigit c

instance (s : String) : Decidable (HasDigits s) := List.decidableBAll _ _

theorem HasDigits.any_eq_false (h : HasDigits s) :
    s.toList.any (fun c => 128 ≤ c.toNat) = false := by
  rw [HasDigits, List.forall_mem_append] at h
  rw [List.any_eq_false]
  intro c hc
  rw [← List.take_append_drop 16 s.toList, List.mem_append] at hc
  rw [decide_eq_true_eq, not_le]
  exact hc.elim (toNat_lt_of_mem h.1) (toNat_lt_of_mem h.2)

/-- Sixteen digits fit a word. -/
theorem toNat_toUInt64_hexNumber {cs : List Char} (hlength : cs.length = 16)
    (h : ∀ c ∈ cs, IsHexDigit c) : (hexNumber cs).toUInt64.toNat = hexNumber cs := by
  have hlt := hexNumber_lt h
  rw [hlength] at hlt
  exact UInt64.toNat_ofNat_of_lt' hlt

theorem parse_of_hasDigits (hlength : s.length = 32) (h : HasDigits s) :
    parse s = ofMasks (hexNumber (numerals s).1).toUInt64 (hexNumber (numerals s).2).toUInt64 := by
  have hascii := h.any_eq_false
  rw [HasDigits, List.forall_mem_append] at h
  rw [← String.length_toList] at hlength
  have hown : unsigned? 16 (s.toList.take 16) = some (hexNumber (numerals s).1) :=
    (unsigned?_eq_some_iff (by simp [hlength])).2 ⟨h.1, rfl⟩
  have hopposing : unsigned? 16 (s.toList.drop 16) = some (hexNumber (numerals s).2) :=
    (unsigned?_eq_some_iff (by simp [hlength])).2 ⟨h.2, rfl⟩
  rw [parse, hascii, if_neg (by simpa using hlength), hown, hopposing]

theorem hasDigits_of_parse (h : parse s = .ok p) : s.length = 32 ∧ HasDigits s := by
  rw [parse] at h
  split at h
  · cases h
  rename_i hshape
  obtain ⟨hlength, -⟩ : s.toList.length = 32 ∧ _ := by simpa using hshape
  split at h
  · rename_i own opposing hown hopposing
    have hdigits := (unsigned?_eq_some_iff (by simp [hlength])).1 hown
    have hdigits' := (unsigned?_eq_some_iff (by simp [hlength])).1 hopposing
    exact ⟨by rwa [← String.length_toList], List.forall_mem_append.2 ⟨hdigits.1, hdigits'.1⟩⟩
  · cases h

theorem eq_toUInt64_hexNumber_iff {cs : List Char} (hlength : cs.length = 16)
    (h : ∀ c ∈ cs, IsHexDigit c) {m : Mask} :
    m = (hexNumber cs).toUInt64 ↔ m.toNat = hexNumber cs := by
  rw [← UInt64.toNat_inj, toNat_toUInt64_hexNumber hlength h]

/-- The texts of a position. -/
theorem parse_eq_ok_iff :
    parse s = .ok p ↔ (s.length = 32 ∧ HasDigits s) ∧
      p.own.toNat = hexNumber (numerals s).1 ∧ p.opposing.toNat = hexNumber (numerals s).2 := by
  by_cases h : s.length = 32 ∧ HasDigits s
  · obtain ⟨hown, hopposing⟩ := length_numerals h.1
    have hdigits := List.forall_mem_append.1 h.2
    rw [parse_of_hasDigits h.1 h.2, ofMasks_eq_ok_iff, eq_toUInt64_hexNumber_iff hown hdigits.1,
      eq_toUInt64_hexNumber_iff hopposing hdigits.2, and_iff_right h]
  · exact ⟨fun hparse => absurd (hasDigits_of_parse hparse) h, fun hparse => absurd hparse.1 h⟩

/-- The numbers in a text are the masks of a position, if they have no bit in common. -/
theorem exists_parse_eq_ok_iff :
    (∃ p, parse s = .ok p) ↔ (s.length = 32 ∧ HasDigits s) ∧
      hexNumber (numerals s).1 &&& hexNumber (numerals s).2 = 0 := by
  constructor
  · rintro ⟨p, hp⟩
    obtain ⟨hshape, hown, hopposing⟩ := parse_eq_ok_iff.1 hp
    rw [← hown, ← hopposing, ← UInt64.toNat_and, p.disjoint]
    exact ⟨hshape, rfl⟩
  · rintro ⟨hshape, hdisjoint⟩
    obtain ⟨hown, hopposing⟩ := length_numerals hshape.1
    have hdigits := List.forall_mem_append.1 hshape.2
    have hmasks : (hexNumber (numerals s).1).toUInt64 &&& (hexNumber (numerals s).2).toUInt64 = 0 := by
      rw [← UInt64.toNat_inj, UInt64.toNat_and, toNat_toUInt64_hexNumber hown hdigits.1,
        toNat_toUInt64_hexNumber hopposing hdigits.2, hdisjoint]
      rfl
    exact ⟨⟨_, _, hmasks⟩, by
      rw [parse_of_hasDigits hshape.1 hshape.2, ofMasks_eq_ok_iff]
      exact ⟨rfl, rfl⟩⟩

/-- A position that is read is written with the same digits, in lower case and without the sign. -/
theorem textChars_of_parse (h : parse s = .ok p) :
    p.textChars = ((numerals s).1 ++ (numerals s).2).map Char.toLower := by
  obtain ⟨⟨hlength, hdigits⟩, hown, hopposing⟩ := parse_eq_ok_iff.1 h
  have hlengths := length_numerals hlength
  have hdigits := List.forall_mem_append.1 hdigits
  have howntext := hexFixed_hexNumber hdigits.1
  have hopposingtext := hexFixed_hexNumber hdigits.2
  rw [hlengths.1] at howntext
  rw [hlengths.2] at hopposingtext
  rw [textChars, maskText, maskText, hown, hopposing, howntext, hopposingtext, List.map_append]

/-- A text is read as a position exactly when it consists of two numerals of sixteen digits, of either
case, that have no bit in common. Either numeral may have a plus sign for its first digit: it counts as
a zero, and is one in the text of the position, which else is the text that was read, in lower case. -/
theorem text_may_have_signs (s : String) :
    ((∃ p, parse s = .ok p) ↔ (s.length = 32 ∧ HasDigits s) ∧
      hexNumber (numerals s).1 &&& hexNumber (numerals s).2 = 0) ∧
    (∀ p, parse s = .ok p →
      p.own.toNat = hexNumber (numerals s).1 ∧ p.opposing.toNat = hexNumber (numerals s).2 ∧
      p.text = String.ofList (((numerals s).1 ++ (numerals s).2).map Char.toLower)) ∧
    ('+' ∉ s.toList → (numerals s).1 ++ (numerals s).2 = s.toList) := by
  refine ⟨exists_parse_eq_ok_iff, fun p h => ?_, fun h => ?_⟩
  · obtain ⟨-, hown, hopposing⟩ := parse_eq_ok_iff.1 h
    exact ⟨hown, hopposing, congrArg String.ofList (textChars_of_parse h)⟩
  · rw [numerals_of_not_mem h]
    exact List.take_append_drop 16 _

/-- A text with signs in both numerals, and digits of either case after them. -/
theorem text_may_have_signs_in_both :
    ∃ p : Position, parse "+00000081000000F+0000010080000a0" = .ok p ∧
      p.own = 0x81000000f ∧ p.opposing = 0x10080000a0 ∧
      p.text = "000000081000000f00000010080000a0" := by
  obtain ⟨hread, hnumbers, -⟩ := text_may_have_signs "+00000081000000F+0000010080000a0"
  obtain ⟨p, hp⟩ := hread.2 ⟨⟨by decide +kernel, by decide +kernel⟩, by decide +kernel⟩
  obtain ⟨hown, hopposing, htext⟩ := hnumbers p hp
  refine ⟨p, hp, UInt64.toNat_inj.1 (hown.trans ?_), UInt64.toNat_inj.1 (hopposing.trans ?_),
    htext.trans ?_⟩
  all_goals decide +kernel

/-- The first digit of the text of the start is replaced by a sign. The text is not made of digits any
more, and still read as the start, whose own text is another one. -/
theorem sign_is_no_digit :
    parse "+0000008100000000000001008000000" = .ok start ∧
      ¬(∀ c ∈ "+0000008100000000000001008000000".toList, IsHexDigit c) ∧
      start.text ≠ lowerAscii "+0000008100000000000001008000000" :=
  ⟨by decide +kernel, fun h => absurd (h '+' (by decide +kernel)) (by decide), by decide +kernel⟩

end OthelloBook.Position
