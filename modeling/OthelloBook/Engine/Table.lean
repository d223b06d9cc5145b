import OthelloBook.Position.Reader
import OthelloBook.Text.Numeral

/-!
# Result tables

What an engine prints while it searches: a table between two borders, with a row for each depth
that it has finished. The last row before the second border is the result. Lines before the first
border are of no matter.
-/
namespace OthelloBook

inductive RowFault where
  | columns | depth | confidence | score | moves
  deriving DecidableEq, Repr

def RowFault.message : RowFault → String
  | .columns => "not enough columns"
  | .depth => "bad depth"
  | .confidence => "bad confidence"
  | .score => "bad score"
  | .moves => "bad principal variation"

inductive EngineError where
  | io
  | emptyCommand
  | exited
  | output (line : String) (fault : RowFault)
  | noResult
  | book (e : BookError)
  deriving DecidableEq

namespace EngineError

def message : EngineError → String
  | .io => "failed to talk to the engine"
  | .emptyCommand => "engine command is empty"
  | .exited => "engine exited"
  | .output line fault => "unexpected engine output " ++ Text.quote line ++ ": " ++ fault.message
  | .noResult => "engine finished without a search result"
  | .book e => e.message

end EngineError

structure SearchRow where
  depth : Nat
  confidence : Nat
  score : Int
  bestMoves : List Move
  deriving DecidableEq, Repr

inductive OutputLine where
  | ignored
  | border
  | row (r : SearchRow)
  deriving DecidableEq, Repr

namespace OutputLine

def borderText : List Char :=
  "------+-----+--------------+-------------+----------+---------------------".toList

/-- The place, in bytes, where the moves of a row begin. -/
def movesColumn : Nat := 53

def contains (part : List Char) : List Char → Bool
  | [] => part.isEmpty
  | c :: cs => part.isPrefixOf (c :: cs) || contains part cs

/-- Texts that mark a line without a result. -/
def headings : List (List Char) :=
  ["depth".toList, "*** problem #".toList, "A B C D E F G H".toList]

/-- A row of a drawn board: its number and the mark of its first square. -/
def isBoardRow : List Char → Bool
  | d :: ' ' :: m :: _ => '0' ≤ d && d ≤ '9' && "O*-.X".toList.contains m
  | _ => false

/-- The text after `n` bytes; a cut inside a character leaves nothing. -/
def dropBytes (n : Nat) : List Char → List Char
  | [] => []
  | c :: cs =>
    if n = 0 then c :: cs
    else if c.utf8Size ≤ n then dropBytes (n - c.utf8Size) cs
    else []

/-- A score that is only a bound. -/
def isBound : List Char → Bool
  | c :: _ => c = '<' || c = '>'
  | [] => false

/-- The first two columns: the depth, with a confidence after `@`, and the score. -/
def readColumns (depth score : List Char) : Except RowFault (Nat × Nat × Int) :=
  let (depth, confidence) := Text.cutAt '@' depth
  match Text.natUpTo? 255 depth with
  | none => .error .depth
  | some depth =>
    match (confidence.map fun cs => (cs.reverse.dropWhile (· = '%')).reverse).elim (some 100)
        (Text.natUpTo? 255) with
    | none => .error .confidence
    | some confidence =>
      match Text.intUpTo? 127 score with
      | none => .error .score
      | some score => .ok (depth, confidence, score)

def readMoves (words : List (List Char)) : Except RowFault (List Move) :=
  (words.mapM fun w => Move.parse (String.ofList w)).mapError fun _ => .moves

/-- Reads a row from a line without blanks at its end. -/
def readRow (line : List Char) : Except RowFault OutputLine :=
  match Text.wordsOf line with
  | depth :: score :: _ =>
    if isBound score then .ok .ignored
    else do
      let (depth, confidence, score) ← readColumns depth score
      let bestMoves ← readMoves (Text.wordsOf (dropBytes movesColumn line))
      return .row ⟨depth, confidence, score, bestMoves⟩
  | _ => .error .columns

/-- What a line is, or what is wrong with it. Blanks at its end do not count. -/
def read (s : String) : Except EngineError OutputLine :=
  let line := Text.dropBlankEnd s.toList
  if line.isEmpty then .ok .ignored
  else if contains borderText line then .ok .border
  else if headings.any (contains · line) || isBoardRow line then .ok .ignored
  else (readRow line).mapError (.output (String.ofList line))

end OutputLine

structure ResultTable where
  borders : Nat := 0
  last : Option SearchRow := none
  deriving DecidableEq, Repr

namespace ResultTable

/-- Reads the next line; the second border brings the result. -/
def feed (t : ResultTable) (line : String) :
    Except EngineError (Option SearchRow) × ResultTable :=
  match OutputLine.read line with
  | .error e => if t.borders = 0 then (.ok none, t) else (.error e, t)
  | .ok .ignored => (.ok none, t)
  | .ok (.row r) => (.ok none, { t with last := some r })
  | .ok .border =>
    let borders := t.borders + 1
    if borders < 2 then (.ok none, { t with borders := borders })
    else
      match t.last with
      | some r => (.ok (some r), ⟨borders, none⟩)
      | none => (.error .noResult, ⟨borders, none⟩)

/-- The result in a list of lines, which end when the engine does. -/
def result (t : ResultTable) : List String → Except EngineError SearchRow
  | [] => .error .exited
  | line :: lines =>
    match t.feed line with
    | (.error e, _) => .error e
    | (.ok (some r), _) => .ok r
    | (.ok none, t) => result t lines

end ResultTable
end OthelloBook
