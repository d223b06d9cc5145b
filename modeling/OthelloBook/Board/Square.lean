/-!
# Squares

The 64 squares of the board, numbered row by row from `a1`, with their coordinates, names and
neighbours. `ofFileRank_file_rank` says that a square is its two coordinates.
-/
namespace OthelloBook

/-- A square is its index: `a1` is 0, `h1` is 7 and `h8` is 63. -/
abbrev Square := Fin 64

namespace Square

def file (s : Square) : Fin 8 := ⟨s.val % 8, by omega⟩

def rank (s : Square) : Fin 8 := ⟨s.val / 8, by omega⟩

def ofFileRank (file rank : Fin 8) : Square := ⟨8 * rank.val + file.val, by omega⟩

@[simp] theorem file_ofFileRank (f r : Fin 8) : file (ofFileRank f r) = f := by
  ext
  simp only [file, ofFileRank]
  omega

@[simp] theorem rank_ofFileRank (f r : Fin 8) : rank (ofFileRank f r) = r := by
  ext
  simp only [rank, ofFileRank]
  omega

theorem ofFileRank_file_rank (s : Square) : ofFileRank s.file s.rank = s := by
  ext
  simp only [ofFileRank, file, rank]
  omega

def ofIndex? (n : Nat) : Option Square := if h : n < 64 then some ⟨n, h⟩ else none

def ofFileRank? (file rank : Nat) : Option Square :=
  if h : file < 8 ∧ rank < 8 then some (ofFileRank ⟨file, h.1⟩ ⟨rank, h.2⟩) else none

def all : List Square := List.finRange 64

theorem mem_all (s : Square) : s ∈ all := List.mem_finRange s

def fileChar (f : Fin 8) : Char := Char.ofNat ('a'.toNat + f.val)

def rankChar (r : Fin 8) : Char := Char.ofNat ('1'.toNat + r.val)

/-- A square is written as its file letter and its rank digit. -/
def name (s : Square) : String := String.ofList [fileChar s.file, rankChar s.rank]

end Square

inductive Direction where
  | north | northEast | east | southEast | south | southWest | west | northWest
  deriving DecidableEq, Repr

namespace Direction

def all : List Direction :=
  [.northWest, .north, .northEast, .west, .east, .southWest, .south, .southEast]

theorem mem_all (d : Direction) : d ∈ all := by cases d <;> decide

def fileStep : Direction → Int
  | .north | .south => 0
  | .northEast | .east | .southEast => 1
  | .northWest | .west | .southWest => -1

/-- The change of rank of one step; north is towards the first rank. -/
def rankStep : Direction → Int
  | .east | .west => 0
  | .northWest | .north | .northEast => -1
  | .southWest | .south | .southEast => 1

end Direction

namespace Square

def shift? (c : Fin 8) (δ : Int) : Option (Fin 8) :=
  let moved := (c.val : Int) + δ
  if h : 0 ≤ moved ∧ moved < 8 then some ⟨moved.toNat, by omega⟩ else none

def step? (d : Direction) (s : Square) : Option Square :=
  match shift? s.file d.fileStep, shift? s.rank d.rankStep with
  | some f, some r => some (ofFileRank f r)
  | _, _ => none

/-- At most `n` squares met when walking from a square in a direction, the square itself left out. -/
def walk (d : Direction) : Nat → Square → List Square
  | 0, _ => []
  | n + 1, s =>
    match step? d s with
    | none => []
    | some t => t :: walk d n t

/-- All squares met when walking to the edge: no walk has more than seven steps. -/
def ray (d : Direction) (s : Square) : List Square := walk d 7 s

end Square
end OthelloBook
