import OthelloBook.Proofs.Board.Iteration
import OthelloBook.Proofs.Board.Symmetries
import OthelloBook.Proofs.Position.Bytes

/-!
# The symmetries are those of the square

What a symmetry does to words is what it does to coordinates: it mirrors the file, mirrors the rank
and exchanges file and rank, each step by one bit of its index. So it keeps the number of discs and
can be undone, one symmetry after another is a symmetry, and the image of a square is found by the
one bit of the image of its word.
-/
namespace OthelloBook

namespace Square

def mirrorFile (q : Square) : Square := ofFileRank q.file.rev q.rank

def mirrorRank (q : Square) : Square := ofFileRank q.file q.rank.rev

def exchange (q : Square) : Square := ofFileRank q.rank q.file

/-- Where three steps lead, one after the other, each made if its bit of `index` is set. -/
def moved (index : ℕ) (q : Square) : Square :=
  let q := if index.testBit 0 then q.mirrorFile else q
  let q := if index.testBit 1 then q.mirrorRank else q
  if index.testBit 2 then q.exchange else q

end Square

namespace Mask

/-- The byte with the number of a rank holds the squares of this rank. -/
theorem testBit_byte (m : Mask) (r : Fin 8) (i : ℕ) :
    (m.toNat / 256 ^ r.val % 256).testBit i =
      if h : i < 8 then m.contains (Square.ofFileRank ⟨i, h⟩ r) else false := by
  have hpow : 256 ^ r.val = 2 ^ (8 * r.val) := by rw [Nat.pow_mul]
  rw [hpow, show (256 : ℕ) = 2 ^ 8 from rfl, Nat.testBit_mod_two_pow, Nat.testBit_div_two_pow]
  split
  · next h =>
    rw [contains_eq_getLsbD, BitVec.getLsbD, UInt64.toNat_toBitVec]
    simp [Square.ofFileRank, h, Nat.add_comm]
  · next h => simp [h]

theorem contains_reverseRanks (m : Mask) (f r : Fin 8) :
    m.reverseRanks.contains (Square.ofFileRank f r) = m.contains (Square.ofFileRank f r.rev) := by
  have h := Symmetry.contains_onMask ⟨false, true, false⟩ m (Square.ofFileRank f r.rev)
  simpa [Symmetry.onMask, Symmetry.onSquare] using h

theorem byte_reverseRanks (m : Mask) (r : Fin 8) :
    m.reverseRanks.toNat / 256 ^ r.val % 256 = m.toNat / 256 ^ r.rev.val % 256 := by
  apply Nat.eq_of_testBit_eq
  intro i
  simp only [testBit_byte, contains_reverseRanks]

/-- To reverse the ranks is to reverse the bytes of the word. -/
theorem littleEndian_reverseRanks (m : Mask) :
    Position.littleEndian 8 m.reverseRanks.toNat = (Position.littleEndian 8 m.toNat).reverse := by
  simp only [Position.littleEndian_eq_ofFn]
  refine List.ext_getElem (by simp) fun i hi _ => ?_
  have h8 : i < 8 := by simpa using hi
  have hbyte := m.byte_reverseRanks ⟨i, h8⟩
  rw [Fin.val_rev] at hbyte
  rw [List.getElem_reverse, List.getElem_ofFn, List.getElem_ofFn, hbyte]
  simp [Nat.add_comm]

end Mask

namespace Symmetry

/-- The place of the lowest bit in the image of the word of one square. -/
def placeOfImage (s : Symmetry) (q : Square) : ℕ := (s.onMask (Mask.single q)).trailingZeros

theorem placeOfImage_eq (s : Symmetry) (q : Square) : s.placeOfImage q = (s.onSquare q).val := by
  rw [placeOfImage, onMask_single, Mask.trailingZeros_single]

@[simp] theorem testBit_index_zero (s : Symmetry) : s.index.testBit 0 = s.reversesFiles := by
  rcases s with ⟨_ | _, _ | _, _ | _⟩ <;> rfl

@[simp] theorem testBit_index_one (s : Symmetry) : s.index.testBit 1 = s.reversesRanks := by
  rcases s with ⟨_ | _, _ | _, _ | _⟩ <;> rfl

@[simp] theorem testBit_index_two (s : Symmetry) : s.index.testBit 2 = s.transposes := by
  rcases s with ⟨_ | _, _ | _, _ | _⟩ <;> rfl

theorem moved_index (s : Symmetry) (q : Square) : q.moved s.index = s.onSquare q := by
  rw [Square.moved, testBit_index_zero, testBit_index_one, testBit_index_two]
  rcases s with ⟨_ | _, _ | _, _ | _⟩ <;>
    simp [onSquare, Square.mirrorFile, Square.mirrorRank, Square.exchange,
      Square.ofFileRank_file_rank]

/-- The words of a symmetry follow the coordinates. The image of a square is the place of the one
bit in the image of its word, which is less than 64, and has its coordinates mirrored and exchanged
as the bits of the index say. The image of a set has exactly the images of its squares, so as many
as the set, and the inverse leads back to the set. One symmetry after another is a symmetry. The
reversal of the ranks is that of the bytes of the word. -/
theorem images_follow_the_coordinates (s : Symmetry) :
    (∀ q, s.placeOfImage q < 64 ∧ Square.ofIndex? (s.placeOfImage q) = some (s.onSquare q) ∧
      s.onSquare q = q.moved s.index) ∧
    (∀ m q, (s.onMask m).contains (s.onSquare q) = true ↔ m.contains q = true) ∧
    (∀ m, (s.onMask m).count = m.count) ∧
    (∀ m, s.inverse.onMask (s.onMask m) = m) ∧
    (∀ t : Symmetry, ∃ u ∈ all, ∀ m, u.onMask m = t.onMask (s.onMask m)) ∧
    (∀ m : Mask, Position.littleEndian 8 m.reverseRanks.toNat =
      (Position.littleEndian 8 m.toNat).reverse) := by
  refine ⟨fun q => ⟨?_, Square.ofIndex?_eq_some_iff.2 (s.placeOfImage_eq q), (s.moved_index q).symm⟩,
    fun m q => by rw [contains_onMask], s.count_onMask, s.onMask_inverse_onMask,
    fun t => ⟨s.andThen t, mem_all _, s.onMask_andThen t⟩, Mask.littleEndian_reverseRanks⟩
  rw [placeOfImage_eq]
  exact (s.onSquare q).isLt

-- From `b1` to `g1` and from there to `a7`.
example : (⟨true, false, true⟩ : Symmetry).placeOfImage 1 = 48 := by decide +kernel

end Symmetry
end OthelloBook
