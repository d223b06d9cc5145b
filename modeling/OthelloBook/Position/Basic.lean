import OthelloBook.Board.Mask
import OthelloBook.Text.Numeral

/-!
# Positions

A position is two disjoint sets of discs, seen from the side to move. Placing a disc gives the
position seen from the other side, and so does a pass. `after?` is the rule of the game: it has
an answer exactly for the legal moves.
-/
namespace OthelloBook

/-! ## Moves

A move places a disc on a square or, where the side to move has no such square, passes. Moves are
stored and sent as small integers, a pass as -1. -/

inductive Move where
  | play (s : Square)
  | pass
  deriving DecidableEq, Repr

namespace Move

def index : Move → Int
  | .play s => s.val
  | .pass => -1

def ofIndex? : Int → Option Move
  | .ofNat n => (Square.ofIndex? n).map .play
  | .negSucc 0 => some .pass
  | .negSucc _ => none

@[simp] theorem ofIndex?_index (m : Move) : ofIndex? m.index = some m := by
  cases m with
  | play s => simp [index, ofIndex?, Square.ofIndex?]
  | pass => rfl

/-- A pass is written `ps`. -/
def name : Move → String
  | .play s => s.name
  | .pass => "ps"

end Move

/-! ## Positions -/

structure Position where
  own : Mask
  opposing : Mask
  disjoint : own &&& opposing = 0
  deriving DecidableEq

namespace Position

/-- Positions are ordered by the discs of the side to move, then by those of the other side. -/
instance : Ord Position := ⟨compareLex (compareOn own) (compareOn opposing)⟩

instance : Std.TransOrd Position := inferInstanceAs (Std.TransCmp (compareLex _ _))

instance : Std.LawfulEqOrd Position where
  eq_of_compare {p q} h := by
    obtain ⟨ho, hp⟩ := compareLex_eq_eq.1 h
    have ho : p.own = q.own := Std.LawfulEqCmp.eq_of_compare ho
    have hp : p.opposing = q.opposing := Std.LawfulEqCmp.eq_of_compare hp
    cases p
    cases q
    simp_all

instance : LT Position := ltOfOrd

def ofMasks? (own opposing : Mask) : Option Position :=
  if h : own &&& opposing = 0 then some ⟨own, opposing, h⟩ else none

def start : Position := ⟨0x0000000810000000, 0x0000001008000000, by decide⟩

/-- The free squares. -/
def empty (p : Position) : Mask := ~~~(p.own ||| p.opposing)

def discCount (p : Position) : Nat := p.own.count + p.opposing.count

def emptyCount (p : Position) : Nat := 64 - p.discCount

def moves (p : Position) : Mask := Mask.moves p.own p.opposing

def hasMoves (p : Position) : Bool := p.moves != 0

/-- The same discs seen from the other side. -/
def pass (p : Position) : Position :=
  ⟨p.opposing, p.own, by rw [UInt64.and_comm]; exact p.disjoint⟩

@[simp] theorem pass_pass (p : Position) : p.pass.pass = p := rfl

/-- Neither side can place a disc. -/
def isGameEnd (p : Position) : Bool := !p.hasMoves && !p.pass.hasMoves

/-- Only the other side can place a disc. -/
def isForcedPass (p : Position) : Bool := !p.hasMoves && p.pass.hasMoves

/-- The result of a finished game for the side to move: the winner also gets the empty squares. -/
def finalScore (p : Position) : Int :=
  let own := (p.own.count : Int)
  let opposing := (p.opposing.count : Int)
  if opposing < own then 64 - 2 * opposing
  else if own < opposing then -64 + 2 * own
  else 0

/-- The squares that belong to the mover after a disc is placed on `s`. -/
def claimed (p : Position) (s : Square) : Mask :=
  p.own ||| Mask.flips s p.own p.opposing ||| Mask.single s

/-- The position after a disc is placed on `s`, seen from the other side. -/
def place (p : Position) (s : Square) : Position where
  own := p.opposing &&& ~~~p.claimed s
  opposing := p.claimed s
  disjoint := by rw [UInt64.and_assoc, UInt64.not_and_self, UInt64.and_zero]

/-- The position after a move. A disc may be placed on a free square where it captures, and a
pass is allowed only without such a square. -/
def after? (p : Position) : Move → Option Position
  | .pass => if p.hasMoves then none else some p.pass
  | .play s =>
    if p.empty.contains s && Mask.flips s p.own p.opposing != 0 then some (p.place s) else none

def children (p : Position) : List (Square × Position) :=
  p.moves.squares.map fun s => (s, p.place s)

/-! ## Written positions

The ways a position is written: as 32 hexadecimal digits, as sixteen bytes, as one line for an
engine and as a board for a reader. -/

def maskText (m : Mask) : List Char := Text.hexFixed 16 m.toNat

/-- A position is written as the digits of the mover's discs, then those of the other side. -/
def textChars (p : Position) : List Char := maskText p.own ++ maskText p.opposing

@[simp] theorem length_textChars (p : Position) : p.textChars.length = 32 := by
  simp [textChars, maskText]

def text (p : Position) : String := String.ofList p.textChars

/-- The last `n` bytes of a number, lowest byte first. -/
def littleEndian : Nat → Nat → List UInt8
  | 0, _ => []
  | n + 1, v => (v % 256).toUInt8 :: littleEndian n (v / 256)

def ofLittleEndian : List UInt8 → Nat
  | [] => 0
  | b :: bs => b.toNat + 256 * ofLittleEndian bs

/-- The eight bytes of each set of discs, the mover's first. -/
def bytes (p : Position) : List UInt8 :=
  littleEndian 8 p.own.toNat ++ littleEndian 8 p.opposing.toNat

def squareChar (p : Position) (s : Square) : Char :=
  if p.own.contains s then 'X' else if p.opposing.contains s then 'O' else '-'

def rankChars (p : Position) (rank : Fin 8) : List Char :=
  (List.finRange 8).map fun file => p.squareChar (Square.ofFileRank file rank)

/-- The line that puts a position before an engine: the ranks between slashes, and `X` to move. -/
def setboardChars (p : Position) : List Char :=
  ['/'].intercalate ((List.finRange 8).map p.rankChars) ++ ['X']

def setboard (p : Position) : String := String.ofList p.setboardChars

def diagram (p : Position) : String :=
  String.ofList <|
    "  a b c d e f g h\n".toList ++
      (List.finRange 8).flatMap fun rank =>
        Square.rankChar rank :: ((p.rankChars rank).flatMap fun c => [' ', c]) ++ ['\n']

end Position
end OthelloBook
