import OthelloBook.Position.Play
import OthelloBook.Text.Words

/-!
# Reading squares, moves and positions

The readers for everything that names a square, a move or a position. Letters may be of either
case; a pass has four spellings; a board may be spread over lines.
-/
namespace OthelloBook

/-- An upper-case letter from `A` to `Z` in lower case; every other character as it is. -/
def lowerAscii (s : String) : String := String.ofList (s.toList.map Char.toLower)

namespace Square

def fileOfChar? (c : Char) : Option (Fin 8) :=
  (List.finRange 8).find? fun f => fileChar f = c.toLower

def rankOfChar? (c : Char) : Option (Fin 8) :=
  (List.finRange 8).find? fun r => rankChar r = c

def ofChars? : List Char → Option Square
  | [f, r] =>
    match fileOfChar? f, rankOfChar? r with
    | some file, some rank => some (ofFileRank file rank)
    | _, _ => none
  | _ => none

def parse (s : String) : Except BookError Square :=
  match ofChars? s.toList with
  | some sq => .ok sq
  | none => .error (.parse (.square s))

end Square

namespace Move

def passNames : List String := ["ps", "pa", "--", "pass"]

def parse (s : String) : Except BookError Move :=
  let t := lowerAscii s
  if t ∈ passNames then .ok .pass else (Square.parse t).map .play

def ofIndex (i : Int) : Except BookError Move :=
  match ofIndex? i with
  | some m => .ok m
  | none => .error (.parse (.moveIndex i))

end Move

namespace Position

/-- Reads 32 characters as two numbers of sixteen digits, the first of which may be a plus
sign. -/
def parse (s : String) : Except BookError Position :=
  let cs := s.toList
  if cs.length ≠ 32 || cs.any (fun c => 128 ≤ c.toNat) then .error (.parse (.positionShape s))
  else
    match Text.unsigned? 16 (cs.take 16), Text.unsigned? 16 (cs.drop 16) with
    | some own, some opposing => ofMasks own.toUInt64 opposing.toUInt64
    | _, _ => .error (.parse (.positionDigit s))

def ofBytes (bs : List UInt8) : Except BookError Position :=
  if bs.length ≠ 16 then .error (.parse (.blobSize bs.length))
  else ofMasks (ofLittleEndian (bs.take 8)).toUInt64 (ofLittleEndian (bs.drop 8)).toUInt64

inductive Mark where
  | own | opposing | free
  deriving DecidableEq, Repr

def Mark.ofChar? (c : Char) : Option Mark :=
  if c = 'X' || c = 'x' || c = '*' then some .own
  else if c = 'O' || c = 'o' then some .opposing
  else if c = '-' || c = '.' then some .free
  else none

/-- Reads the marks of the squares from the one of this index on; beyond the last square any
further mark is too much, whatever it is. -/
def readMarks (index : Nat) (own opposing : Mask) :
    List Char → Except BookError Position
  | [] =>
    if index ≠ 64 then .error (.parse (.boardSize index)) else ofMasks own opposing
  | c :: cs =>
    match Square.ofIndex? index with
    | none => .error (.parse .boardTooLong)
    | some s =>
      match Mark.ofChar? c with
      | some .own => readMarks (index + 1) (own ||| Mask.single s) opposing cs
      | some .opposing => readMarks (index + 1) own (opposing ||| Mask.single s) cs
      | some .free => readMarks (index + 1) own opposing cs
      | none => .error (.parse (.boardChar c))

/-- Reads a board: one mark for each square from `a1` to `h8`, with blanks anywhere. -/
def ofBoard (s : String) : Except BookError Position :=
  readMarks 0 0 0 (s.toList.filter fun c => !Text.isBlank c)

end Position
end OthelloBook
