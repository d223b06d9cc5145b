import OthelloBook.Board.Mask
import Mathlib.Tactic

/-!
# Masks as sets of squares

A mask is determined by the squares it contains, and the operations on words are the operations on
sets. Clearing the lowest bit takes out the first square, so that the squares that are read off one
by one are all of them in ascending order.
-/
namespace OthelloBook.Mask

theorem toBitVec_single (s : Square) : (single s).toBitVec = BitVec.twoPow 64 s.val := by
  revert s
  decide +kernel

theorem contains_eq_getLsbD (m : Mask) (s : Square) : m.contains s = m.toBitVec.getLsbD s.val := by
  have hne : BitVec.twoPow 64 s.val ≠ 0#64 := by
    intro h
    have hb := congrArg (fun v : BitVec 64 => v.getLsbD s.val) h
    simp at hb
  rw [contains, Bool.eq_iff_iff, bne_iff_ne, ne_eq, ← UInt64.toBitVec_inj, UInt64.toBitVec_and,
    toBitVec_single, BitVec.and_twoPow]
  cases m.toBitVec.getLsbD s.val <;> simp [hne]

/-- Two masks with the same squares are equal. -/
theorem eq_of_contains {a b : Mask} (h : ∀ s, a.contains s = b.contains s) : a = b := by
  apply UInt64.eq_of_toBitVec_eq
  apply BitVec.eq_of_getLsbD_eq
  intro i hi
  simpa only [contains_eq_getLsbD] using h ⟨i, hi⟩

theorem ne_zero_iff {m : Mask} : m ≠ 0 ↔ ∃ s, m.contains s = true := by
  constructor
  · intro h
    by_contra hn
    push Not at hn
    exact h (eq_of_contains fun s => by simpa using hn s)
  · rintro ⟨s, hs⟩ rfl
    simp at hs

@[simp] theorem contains_or (a b : Mask) (s : Square) :
    (a ||| b).contains s = (a.contains s || b.contains s) := by
  simp [contains_eq_getLsbD]

@[simp] theorem contains_and (a b : Mask) (s : Square) :
    (a &&& b).contains s = (a.contains s && b.contains s) := by
  simp [contains_eq_getLsbD]

@[simp] theorem contains_not (m : Mask) (s : Square) : (~~~m).contains s = !m.contains s := by
  simp [contains_eq_getLsbD]

@[simp] theorem contains_single (s t : Square) : (single s).contains t = decide (s = t) := by
  rw [contains_eq_getLsbD, toBitVec_single, BitVec.getLsbD_twoPow]
  simp [Fin.ext_iff]

theorem contains_of_disjoint {a b : Mask} (h : a &&& b = 0) {s : Square}
    (hs : b.contains s = true) : a.contains s = false := by
  have hb := contains_and a b s
  rw [h, contains_zero, hs, Bool.and_true] at hb
  exact hb.symm

/-- A shift to the left moves every square up by the same number, as far as the board reaches. -/
theorem contains_shiftLeft (m : Mask) {k : UInt64} (hk : k.toNat < 64) (s : Square) :
    (m <<< k).contains s = true ↔ ∃ t : Square, t.val + k.toNat = s.val ∧ m.contains t = true := by
  have h64 : k.toNat % 64 = k.toNat := Nat.mod_eq_of_lt hk
  have hbit : (m <<< k).contains s =
      (!decide (s.val < k.toNat) && m.toBitVec.getLsbD (s.val - k.toNat)) := by
    have hs : s.val - k.toNat < 64 := by omega
    rw [BitVec.getLsbD_eq_getElem hs]
    simp [contains_eq_getLsbD, h64]
  simp only [hbit, Bool.and_eq_true, Bool.not_eq_true', decide_eq_false_iff_not, not_lt,
    contains_eq_getLsbD]
  constructor
  · rintro ⟨hle, h⟩
    exact ⟨⟨s.val - k.toNat, by omega⟩, Nat.sub_add_cancel hle, h⟩
  · rintro ⟨t, ht, h⟩
    have hv : s.val - k.toNat = t.val := by omega
    exact ⟨by omega, by rwa [hv]⟩

/-- A shift to the right moves every square down by the same number. -/
theorem contains_shiftRight (m : Mask) {k : UInt64} (hk : k.toNat < 64) (s : Square) :
    (m >>> k).contains s = true ↔ ∃ t : Square, s.val + k.toNat = t.val ∧ m.contains t = true := by
  have h64 : k.toNat % 64 = k.toNat := Nat.mod_eq_of_lt hk
  have hbit : (m >>> k).contains s = m.toBitVec.getLsbD (s.val + k.toNat) := by
    rw [Nat.add_comm]
    simp [contains_eq_getLsbD, h64]
  simp only [hbit, contains_eq_getLsbD]
  constructor
  · intro h
    exact ⟨⟨s.val + k.toNat, BitVec.lt_of_getLsbD h⟩, rfl, h⟩
  · rintro ⟨t, ht, h⟩
    rwa [ht]

/-- The squares below a given one. -/
theorem contains_single_sub_one (s t : Square) : (single s - 1).contains t = decide (t < s) := by
  have hs : (single s).toNat = 2 ^ s.val := by
    rw [← UInt64.toNat_toBitVec, toBitVec_single, BitVec.toNat_twoPow, Nat.mod_eq_of_lt]
    exact Nat.pow_lt_pow_right (by decide) s.isLt
  have hle : (1 : UInt64) ≤ single s := by
    rw [UInt64.le_iff_toNat_le, hs]
    exact Nat.one_le_two_pow
  rw [contains_eq_getLsbD, BitVec.getLsbD, UInt64.toNat_toBitVec, UInt64.toNat_sub_of_le _ _ hle,
    hs, UInt64.toNat_one, Nat.testBit_two_pow_sub_one]
  rfl

theorem or_eq_add {a b : Mask} (h : a &&& b = 0) : a ||| b = a + b := by
  apply UInt64.eq_of_toBitVec_eq
  rw [UInt64.toBitVec_or, UInt64.toBitVec_add, BitVec.add_eq_or_of_and_eq_zero]
  rw [← UInt64.toBitVec_and, h]
  rfl

theorem lowest?_eq_some_iff {m : Mask} {s : Square} :
    m.lowest? = some s ↔ m.contains s = true ∧ ∀ t < s, m.contains t = false := by
  have hsorted : Square.all.Pairwise (· < ·) := List.pairwise_lt_finRange 64
  rw [lowest?, List.find?_eq_some_iff_append]
  constructor
  · rintro ⟨hs, before, after, heq, hb⟩
    refine ⟨hs, fun t ht => ?_⟩
    have hm := Square.mem_all t
    rw [heq] at hm hsorted
    have hlt := List.pairwise_append.1 hsorted
    rcases List.mem_append.1 hm with h | h
    · simpa using hb t h
    · have := (List.pairwise_cons.1 hlt.2.1).1
      rcases List.mem_cons.1 h with rfl | h
      · exact absurd ht (lt_irrefl _)
      · exact absurd ht (lt_asymm (this t h))
  · rintro ⟨hs, hb⟩
    obtain ⟨before, after, heq⟩ := List.append_of_mem (Square.mem_all s)
    refine ⟨hs, before, after, heq, fun t ht => ?_⟩
    rw [heq] at hsorted
    have hlt := (List.pairwise_append.1 hsorted).2.2 t ht s (by simp)
    simp [hb t hlt]

theorem lowest?_eq_none_iff {m : Mask} : m.lowest? = none ↔ m = 0 := by
  rw [lowest?, List.find?_eq_none]
  constructor
  · intro h
    by_contra hm
    obtain ⟨s, hs⟩ := ne_zero_iff.1 hm
    exact h s (Square.mem_all s) hs
  · rintro rfl
    simp

/-- Borrowing clears the lowest bit and nothing else. -/
theorem contains_clearLowest {m : Mask} {s : Square} (h : m.lowest? = some s) (t : Square) :
    m.clearLowest.contains t = (m.contains t && decide (t ≠ s)) := by
  obtain ⟨hs, hb⟩ := lowest?_eq_some_iff.1 h
  -- The word is its upper squares plus the lowest one, and the borrow stays below those.
  let upper := m &&& ~~~single s
  have hm : m = upper + single s := by
    rw [← or_eq_add]
    · apply eq_of_contains
      intro u
      by_cases hu : s = u
      · simp [upper, ← hu, hs]
      · simp [upper, hu]
    · rw [UInt64.and_assoc, UInt64.not_and_self, UInt64.and_zero]
  have hless : upper + (single s - 1) = upper ||| (single s - 1) := by
    symm
    apply or_eq_add
    apply eq_of_contains
    intro u
    by_cases hu : u < s
    · simp [upper, hb u hu]
    · simp [contains_single_sub_one, hu]
  have hpred : m - 1 = upper ||| (single s - 1) :=
    calc
      m - 1 = upper + single s - 1 := by rw [← hm]
      _ = upper + (single s - 1) := by
        rw [UInt64.sub_eq_add_neg, UInt64.sub_eq_add_neg, UInt64.add_assoc]
      _ = upper ||| (single s - 1) := hless
  rw [clearLowest, contains_and, hpred]
  simp only [contains_or, contains_single_sub_one, upper, contains_and, contains_not,
    contains_single]
  by_cases hu : t < s
  · simp [hb t hu]
  · by_cases he : s = t
    · simp [he]
    · simp [hu, he, Ne.symm he]

theorem filter_clearLowest {m : Mask} {s : Square} (h : m.lowest? = some s) :
    Square.all.filter m.contains = s :: Square.all.filter m.clearLowest.contains := by
  have hnodup : (Square.all.filter m.contains).Nodup := (List.nodup_finRange 64).filter _
  have hhead : (Square.all.filter m.contains).head? = some s := by
    rw [List.head?_filter]
    exact h
  obtain ⟨rest, hrest⟩ := List.head?_eq_some_iff.1 hhead
  rw [hrest] at hnodup ⊢
  congr 1
  calc
    rest = (s :: rest).filter fun t => decide (t ≠ s) := by
      have hmem := (List.nodup_cons.1 hnodup).1
      rw [List.filter_cons_of_neg (by simp), eq_comm, List.filter_eq_self]
      intro t ht
      simpa using fun he : t = s => hmem (he ▸ ht)
    _ = Square.all.filter m.clearLowest.contains := by
      rw [← hrest, List.filter_filter]
      congr 1
      funext t
      rw [contains_clearLowest h, Bool.and_comm]

theorem take_eq_take_filter (n : Nat) (m : Mask) :
    take n m = (Square.all.filter m.contains).take n := by
  induction n generalizing m with
  | zero => simp [take]
  | succ n ih =>
    cases h : m.lowest? with
    | none =>
      have hnone := List.find?_eq_none.1 h
      simp [take, popLowest?, h, List.filter_eq_nil_iff.2 hnone]
    | some s => simp [take, popLowest?, h, filter_clearLowest h, ih]

/-- The squares that are read off a mask are those it contains, in the order of the board. -/
theorem squares_eq_filter (m : Mask) : m.squares = Square.all.filter m.contains := by
  rw [squares, take_eq_take_filter, List.take_of_length_le]
  exact (List.length_filter_le _ _).trans (by simp [Square.all])

theorem squares_zero : squares 0 = [] := by
  rw [squares_eq_filter]
  simp

theorem squares_eq_cons {m : Mask} {s : Square} (h : m.lowest? = some s) :
    m.squares = s :: m.clearLowest.squares := by
  rw [squares_eq_filter, squares_eq_filter, filter_clearLowest h]

theorem mem_squares {m : Mask} {s : Square} : s ∈ m.squares ↔ m.contains s = true := by
  simp [squares_eq_filter, Square.mem_all]

theorem pairwise_squares (m : Mask) : m.squares.Pairwise (· < ·) := by
  rw [squares_eq_filter]
  exact (List.pairwise_lt_finRange 64).filter _

theorem length_squares (m : Mask) : m.squares.length = m.count := by
  rw [squares_eq_filter, count, List.countP_eq_length_filter]

theorem count_or {a b : Mask} (h : a &&& b = 0) : (a ||| b).count = a.count + b.count := by
  rw [count, count, count]
  induction Square.all with
  | nil => rfl
  | cons s ss ih =>
    rw [List.countP_cons, List.countP_cons, List.countP_cons, ih, contains_or]
    cases hb : b.contains s with
    | false => simp; omega
    | true => simp [contains_of_disjoint h hb]; omega

theorem count_single (s : Square) : (single s).count = 1 := by
  have heq : (single s).contains = (· == s) := by
    funext t
    rw [contains_single, Bool.eq_iff_iff, decide_eq_true_iff, beq_iff_eq, eq_comm]
  rw [count, heq]
  exact List.count_eq_one_of_mem (List.nodup_finRange 64) (Square.mem_all s)

end OthelloBook.Mask
