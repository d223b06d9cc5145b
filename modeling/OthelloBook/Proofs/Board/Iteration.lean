import OthelloBook.Board.Mask
import OthelloBook.Proofs.Board.Geometry
import OthelloBook.Proofs.Board.Sets

/-!
# An iterator gives the squares of its set

The lowest bit of a word is the bit of the first square of a set. So a call gives the first of the
squares still to come and leaves the others, and by induction on the number of calls the squares
come one by one, with as many calls as the word has bits. None of the calls asks a word without
bits for its lowest one.
-/
namespace OthelloBook

namespace Mask

theorem cpopNatRec_eq_countP {w : ℕ} (v : BitVec w) (n : ℕ) :
    v.cpopNatRec n 0 = (List.range n).countP v.getLsbD := by
  induction n with
  | zero => rfl
  | succ n ih =>
    rw [BitVec.cpopNatRec_succ, BitVec.cpopNatRec_add, ih, List.range_succ, List.countP_append]
    cases hb : v.getLsbD n <;> simp [hb]

/-- The squares of a set are as many as the bits of its word. -/
theorem count_eq_cpop (m : Mask) : m.count = m.toBitVec.cpop.toNat := by
  have hall : Square.all.map Fin.val = List.range 64 := List.map_coe_finRange_eq_range
  have hbits : m.contains = m.toBitVec.getLsbD ∘ Fin.val := funext m.contains_eq_getLsbD
  rw [BitVec.toNat_cpop, cpopNatRec_eq_countP, ← hall, List.countP_map, count, hbits]

theorem trailingZeros_lt_iff {m : Mask} : m.trailingZeros < 64 ↔ m ≠ 0 := by
  have h := BitVec.ctz_lt_iff_ne_zero (x := m.toBitVec)
  rw [BitVec.lt_def] at h
  rw [ne_eq, ← UInt64.toBitVec_inj]
  exact h

/-- The lowest bit is the bit of the first square. -/
theorem ofIndex?_trailingZeros (m : Mask) : Square.ofIndex? m.trailingZeros = m.lowest? := by
  rw [Square.ofIndex?]
  by_cases h : m = 0
  · rw [dif_neg (by simp [trailingZeros_lt_iff, h]), lowest?_eq_none_iff.2 h]
  · have hbits : m.toBitVec ≠ 0#64 := fun hz => h (UInt64.eq_of_toBitVec_eq hz)
    rw [dif_pos (trailingZeros_lt_iff.2 h), eq_comm, lowest?_eq_some_iff]
    simp only [contains_eq_getLsbD]
    exact ⟨BitVec.getLsbD_true_ctz_of_ne_zero hbits, fun t ht => BitVec.getLsbD_false_of_lt_ctz ht⟩

theorem trailingZeros_single (s : Square) : (single s).trailingZeros = s.val := by
  rw [← Square.ofIndex?_eq_some_iff, ofIndex?_trailingZeros, lowest?_eq_some_iff]
  exact ⟨by simp, fun t ht => by simp [ht.ne']⟩

theorem popBit?_eq_popLowest? (m : Mask) : m.popBit? = m.popLowest? := by
  rw [popBit?, ofIndex?_trailingZeros, popLowest?]

theorem popBit?_eq_none_iff {m : Mask} : m.popBit? = none ↔ m = 0 := by
  rw [popBit?_eq_popLowest?, popLowest?, Option.map_eq_none_iff, lowest?_eq_none_iff]

end Mask

namespace Iteration

/-- A call answers with the first square still to come, and leaves the others. -/
theorem exists_next_eq (it : Iteration) :
    ∃ later, it.next = some (it.rest.squares.head?, later) ∧
      later.rest.squares = it.rest.squares.tail := by
  cases hlow : it.rest.lowest? with
  | none =>
    have hzero := Mask.lowest?_eq_none_iff.1 hlow
    refine ⟨it, ?_, by rw [hzero, Mask.squares_zero, List.tail_nil]⟩
    rw [next, if_pos hzero, hzero, Mask.squares_zero, List.head?_nil]
  | some s =>
    have hrest : it.rest ≠ 0 := fun hz => by simp [Mask.lowest?_eq_none_iff.2 hz] at hlow
    have hcons := Mask.squares_eq_cons hlow
    refine ⟨⟨it.rest.clearLowest⟩, ?_, by rw [hcons, List.tail_cons]⟩
    rw [next, if_neg hrest, Mask.popBit?_eq_popLowest?, Mask.popLowest?, hlow, hcons,
      List.head?_cons, Option.map_some, Option.map_some]

/-- The calls answer with the squares one after the other, and with none after the last. -/
theorem exists_calls_eq (n : ℕ) (it : Iteration) :
    ∃ later, it.calls n = some ((List.range n).map (it.rest.squares[·]?), later) ∧
      later.rest.squares = it.rest.squares.drop n := by
  induction n generalizing it with
  | zero => exact ⟨it, rfl, rfl⟩
  | succ n ih =>
    -- The first call answers with the head, and the others go on with the tail.
    obtain ⟨between, hnext, htail⟩ := it.exists_next_eq
    obtain ⟨later, hcalls, hdrop⟩ := ih between
    refine ⟨later, ?_, by rw [hdrop, htail, List.drop_tail]⟩
    rw [calls, hnext, Option.bind_eq_bind, Option.bind_some]
    simp only [hcalls, htail]
    rw [Option.bind_eq_bind, Option.bind_some, List.range_succ_eq_map, List.map_cons, List.map_map,
      List.head?_eq_getElem?]
    simp [Function.comp_def]

/-- The squares of a set come one by one, in ascending order, with one call for each bit of its
word, and no call after these gives another one. After each call the iterator knows how many are
still to come. All calls have an answer, which a word without bits could not give for its lowest
one. -/
theorem squares_come_once_in_order (m : Mask) :
    (∀ n, ∃ later, (Iteration.mk m).calls n = some ((List.range n).map (m.squares[·]?), later) ∧
      later.sizeHint = ((m.squares.drop n).length, some (m.squares.drop n).length)) ∧
    (∀ rest : Mask, rest.popBit? = none ↔ rest = 0) ∧
    m.squares.length = m.count ∧ m.count = m.toBitVec.cpop.toNat ∧
    (∀ s, s ∈ m.squares ↔ m.contains s = true) ∧ m.squares.Pairwise (· < ·) := by
  refine ⟨fun n => ?_, fun _ => Mask.popBit?_eq_none_iff, m.length_squares, m.count_eq_cpop,
    fun _ => Mask.mem_squares, m.pairwise_squares⟩
  obtain ⟨later, hcalls, hrest⟩ := exists_calls_eq n ⟨m⟩
  refine ⟨later, hcalls, ?_⟩
  rw [sizeHint, ← Mask.length_squares, hrest]

example : (Iteration.mk 0x8000000000000005).calls 4 =
    some ([some 0, some 2, some 63, none], ⟨0⟩) := by decide +kernel

end Iteration
end OthelloBook
