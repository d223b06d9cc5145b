import OthelloBook.Board.Square

/-!
# Masks

A set of squares packed into one word: bit `n` stands for the square of index `n`. The squares of
a mask are read off by taking out the lowest one until none is left. The discs that a move captures
are found ray by ray, the legal squares of a side for all its discs at once.
-/
namespace OthelloBook

abbrev Mask := UInt64

namespace Mask

def single (s : Square) : Mask := 1 <<< s.val.toUInt64

def contains (m : Mask) (s : Square) : Bool := m &&& single s != 0

@[simp] theorem contains_zero (s : Square) : contains 0 s = false := by simp [contains]

def count (m : Mask) : Nat := Square.all.countP (contains m)

theorem count_le (m : Mask) : m.count ≤ 64 :=
  Nat.le_trans List.countP_le_length (by simp [Square.all])

def lowest? (m : Mask) : Option Square := Square.all.find? (contains m)

/-- The set without its first square: borrowing clears the lowest bit and nothing above it. -/
def clearLowest (m : Mask) : Mask := m &&& (m - 1)

def popLowest? (m : Mask) : Option (Square × Mask) := m.lowest?.map (·, m.clearLowest)

def take : Nat → Mask → List Square
  | 0, _ => []
  | n + 1, m =>
    match m.popLowest? with
    | none => []
    | some (s, rest) => s :: take n rest

/-- The squares of a set in ascending order; there are at most 64. -/
def squares (m : Mask) : List Square := take 64 m

/-- Exchanges the bits under `mask` with those `distance` below them. -/
def deltaSwap (m mask : Mask) (distance : UInt64) : Mask :=
  let t := mask &&& (m ^^^ (m <<< distance))
  m ^^^ t ^^^ (t >>> distance)

/-- Exchanges the bits under `mask` with those `distance` above them. -/
def exchange (m mask : Mask) (distance : UInt64) : Mask :=
  ((m >>> distance) &&& mask) ||| ((m &&& mask) <<< distance)

theorem exchange_and (a b mask : Mask) (k : UInt64) (h : mask &&& (mask <<< k) = 0) :
    exchange (a &&& b) mask k = exchange a mask k &&& exchange b mask k := by
  apply UInt64.eq_of_toBitVec_eq
  apply BitVec.eq_of_getLsbD_eq
  intro i hi
  have hb := congrArg (fun m : UInt64 => m.toBitVec.getLsbD i) h
  simp [exchange, hi] at hb ⊢
  grind

theorem deltaSwap_and (a b mask : Mask) (k : UInt64) (h : mask &&& (mask >>> k) = 0) :
    deltaSwap (a &&& b) mask k = deltaSwap a mask k &&& deltaSwap b mask k := by
  apply UInt64.eq_of_toBitVec_eq
  apply BitVec.eq_of_getLsbD_eq
  intro i hi
  have hb := congrArg (fun m : UInt64 => m.toBitVec.getLsbD i) h
  simp [deltaSwap, hi] at hb ⊢
  grind

/-- Reverses the files: neighbouring files, then pairs, then halves of each rank change places. -/
def reverseFiles (m : Mask) : Mask :=
  ((m.exchange 0x5555555555555555 1).exchange 0x3333333333333333 2).exchange 0x0f0f0f0f0f0f0f0f 4

def reverseRanks (m : Mask) : Mask :=
  ((m.exchange 0x00ff00ff00ff00ff 8).exchange 0x0000ffff0000ffff 16).exchange 0x00000000ffffffff 32

/-- Exchanges files and ranks by swaps of blocks across the diagonal from `a1` to `h8`. -/
def transpose (m : Mask) : Mask :=
  ((m.deltaSwap 0x0f0f0f0f00000000 28).deltaSwap 0x3333000033330000 14).deltaSwap
    0x5500550055005500 7

theorem reverseFiles_and (a b : Mask) : (a &&& b).reverseFiles = a.reverseFiles &&& b.reverseFiles := by
  simp only [reverseFiles]
  rw [exchange_and _ _ _ _ (by decide), exchange_and _ _ _ _ (by decide),
    exchange_and _ _ _ _ (by decide)]

theorem reverseRanks_and (a b : Mask) : (a &&& b).reverseRanks = a.reverseRanks &&& b.reverseRanks := by
  simp only [reverseRanks]
  rw [exchange_and _ _ _ _ (by decide), exchange_and _ _ _ _ (by decide),
    exchange_and _ _ _ _ (by decide)]

theorem transpose_and (a b : Mask) : (a &&& b).transpose = a.transpose &&& b.transpose := by
  simp only [transpose]
  rw [deltaSwap_and _ _ _ _ (by decide), deltaSwap_and _ _ _ _ (by decide),
    deltaSwap_and _ _ _ _ (by decide)]

/-! ## Captured discs

A disc placed on a square captures, along each ray, the run of opposing discs that is closed by a
disc of the mover. `captured` walks one ray, `flips` all eight. -/

/-- The run met along a path, when a disc of `own` closes it; a run that meets an empty square or
the edge is not captured. -/
def captured (own opposing : Mask) : Mask → List Square → Mask
  | _, [] => 0
  | run, s :: path =>
    if opposing.contains s then captured own opposing (run ||| single s) path
    else if own.contains s then run
    else 0

def flips (s : Square) (own opposing : Mask) : Mask :=
  Direction.all.foldl (fun acc d => acc ||| captured own opposing 0 (s.ray d)) 0

/-! ## Mobility

The legal squares of a side, found for all discs at once: along each axis the mover's discs are
flooded through at most six opposing discs, and a flood that leaves the run on an empty square
marks a legal move. Discs on an edge that an axis crosses cannot be inside a run, so the masks
take them out, and no flood wraps to the next rank. -/

def spread (distance : UInt64) (m : Mask) : Mask := (m <<< distance) ||| (m >>> distance)

/-- The squares next to `own` within `through`, then those reached by `n` more steps. -/
def flood (through : Mask) (distance : UInt64) : Nat → Mask → Mask
  | 0, m => spread distance m &&& through
  | n + 1, m =>
    let reached := flood through distance n m
    reached ||| (spread distance reached &&& through)

/-- The squares just behind the runs that start at `own` and stay within `through`. -/
def behindRuns (own through : Mask) (distance : UInt64) : Mask :=
  spread distance (flood through distance 5 own)

def innerFiles : Mask := 0x7e7e7e7e7e7e7e7e

def innerRanks : Mask := 0x00ffffffffffff00

def inner : Mask := 0x007e7e7e7e7e7e00

/-- The empty squares on which `own` captures something. -/
def moves (own opposing : Mask) : Mask :=
  let empty := ~~~(own ||| opposing)
  (behindRuns own (opposing &&& inner) 7 &&& empty) |||
    (behindRuns own (opposing &&& inner) 9 &&& empty) |||
    (behindRuns own (opposing &&& innerFiles) 1 &&& empty) |||
    (behindRuns own (opposing &&& innerRanks) 8 &&& empty)

/-! ## Reading a word bit by bit

The lowest bit of a word has as many zeros below it as its square has squares before it. An
iterator over a set takes out the square of this bit with each call until no bit is left. -/

/-- The number of zeros below the lowest bit of a word, and 64 if it has none. -/
def trailingZeros (m : Mask) : Nat := m.toBitVec.ctz.toNat

/-- The square of the lowest bit and the set without it. A word without bits has no such square,
since 64 is the index of none. -/
def popBit? (m : Mask) : Option (Square × Mask) :=
  (Square.ofIndex? m.trailingZeros).map (·, m.clearLowest)

end Mask

structure Iteration where
  rest : Mask
  deriving DecidableEq, Repr

namespace Iteration

/-- A call takes out a square, or answers that none is left. There is no answer if a word without
bits is asked for its lowest one. -/
def next (it : Iteration) : Option (Option Square × Iteration) :=
  if it.rest = 0 then some (none, it)
  else it.rest.popBit?.map fun (s, rest) => (some s, ⟨rest⟩)

def sizeHint (it : Iteration) : Nat × Option Nat := (it.rest.count, some it.rest.count)

def calls : Nat → Iteration → Option (List (Option Square) × Iteration)
  | 0, it => some ([], it)
  | n + 1, it => do
    let (answer, it) ← it.next
    let (answers, it) ← calls n it
    return (answer :: answers, it)

end Iteration

end OthelloBook
