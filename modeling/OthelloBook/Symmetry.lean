import OthelloBook.Position.Basic

/-!
# Symmetries

The eight symmetries of the board, each a choice of three steps made one after the other: reverse
the files, reverse the ranks, exchange files and ranks. A position has eight images, and the
smallest of them stands for all.
-/
namespace OthelloBook

/-- Which of the three steps a symmetry makes, in this order. -/
structure Symmetry where
  reversesFiles : Bool
  reversesRanks : Bool
  transposes : Bool
  deriving DecidableEq, Repr

namespace Symmetry

def identity : Symmetry := ⟨false, false, false⟩

/-- The steps as a number below eight, one bit each. -/
def index (s : Symmetry) : Nat :=
  s.reversesFiles.toNat + 2 * s.reversesRanks.toNat + 4 * s.transposes.toNat

def others : List Symmetry :=
  [⟨true, false, false⟩, ⟨false, true, false⟩, ⟨true, true, false⟩, ⟨false, false, true⟩,
    ⟨true, false, true⟩, ⟨false, true, true⟩, ⟨true, true, true⟩]

def all : List Symmetry := identity :: others

theorem mem_all (s : Symmetry) : s ∈ all := by
  rcases s with ⟨_ | _, _ | _, _ | _⟩ <;> decide

def ofIndex? (n : Nat) : Option Symmetry := all[n]?

theorem ofIndex?_index (s : Symmetry) : ofIndex? s.index = some s := by
  rcases s with ⟨_ | _, _ | _, _ | _⟩ <;> rfl

/-- The symmetry that undoes another. The two reversals commute, and a transposition after them
turns one into the other. -/
def inverse (s : Symmetry) : Symmetry :=
  if s.transposes then ⟨s.reversesRanks, s.reversesFiles, true⟩ else s

@[simp] theorem inverse_inverse (s : Symmetry) : s.inverse.inverse = s := by
  rcases s with ⟨_ | _, _ | _, _ | _⟩ <;> rfl

def onMask (s : Symmetry) (m : Mask) : Mask :=
  let m := if s.reversesFiles then m.reverseFiles else m
  let m := if s.reversesRanks then m.reverseRanks else m
  if s.transposes then m.transpose else m

/-- The image of a square, found on its coordinates. -/
def onSquare (s : Symmetry) (q : Square) : Square :=
  let file := if s.reversesFiles then q.file.rev else q.file
  let rank := if s.reversesRanks then q.rank.rev else q.rank
  if s.transposes then Square.ofFileRank rank file else Square.ofFileRank file rank

def onMove (s : Symmetry) : Move → Move
  | .play q => .play (s.onSquare q)
  | .pass => .pass

@[simp] theorem onMask_zero (s : Symmetry) : s.onMask 0 = 0 := by
  rcases s with ⟨_ | _, _ | _, _ | _⟩ <;> decide

theorem onMask_and (s : Symmetry) (a b : Mask) :
    s.onMask (a &&& b) = s.onMask a &&& s.onMask b := by
  rcases s with ⟨_ | _, _ | _, _ | _⟩ <;>
    simp [onMask, Mask.reverseFiles_and, Mask.reverseRanks_and, Mask.transpose_and]

end Symmetry

namespace Position

def rotate (p : Position) (s : Symmetry) : Position where
  own := s.onMask p.own
  opposing := s.onMask p.opposing
  disjoint := by rw [← s.onMask_and, p.disjoint, s.onMask_zero]

/-- The position whose image is `p`. -/
def unrotate (p : Position) (s : Symmetry) : Position := p.rotate s.inverse

/-- The better of a candidate and the image under `s`: an image has to be smaller to replace an
earlier one. -/
def betterImage (p : Position) (best : Position × Symmetry) (s : Symmetry) :
    Position × Symmetry :=
  if compare (p.rotate s) best.1 = .lt then (p.rotate s, s) else best

/-- The smallest image of a position, and the first symmetry that gives it. -/
def canonicalize (p : Position) : Position × Symmetry :=
  Symmetry.others.foldl p.betterImage (p, .identity)

def canonical (p : Position) : Position := p.canonicalize.1

def isCanonical (p : Position) : Bool := p.canonical = p

end Position
end OthelloBook
