import OthelloBook.Position.Reader
import OthelloBook.Wire.Message
import OthelloBook.Wire.Record

/-!
# Reading messages

The readers for all messages. Positions, moves and confidences are checked where they stand in
the text, and an evaluation as a whole once its last member is read.
-/
namespace OthelloBook.Wire

open Json (Draft)

def readPosition (d : Draft) : Except DecodeError Position :=
  match readString d with
  | .error e => .error e
  | .ok s => refuse (Position.parse s)

def readSignedByte : Decoder Int := readInt (-128) 127

def readByte : Decoder Nat := readNat 255

def readMove (d : Draft) : Except DecodeError Move :=
  match readSignedByte d with
  | .error e => .error e
  | .ok i => refuse (Move.ofIndex i)

def readConfidence (d : Draft) : Except DecodeError Confidence :=
  match readByte d with
  | .error e => .error e
  | .ok n => refuse (Confidence.ofPercent n)

structure EvaluationParts where
  position : Option Position := none
  level : Option Nat := none
  depth : Option Nat := none
  confidence : Option Confidence := none
  score : Option Int := none
  bestMoves : Option (List Move) := none

def evaluationRecord : Record EvaluationParts Evaluation where
  names := ["position", "level", "depth", "confidence", "score", "best_moves"]
  start := {}
  member
    | 0, d, s => (readPosition d).map fun p => { s with position := some p }
    | 1, d, s => (readByte d).map fun n => { s with level := some n }
    | 2, d, s => (readByte d).map fun n => { s with depth := some n }
    | 3, d, s => (readConfidence d).map fun c => { s with confidence := some c }
    | 4, d, s => (readSignedByte d).map fun z => { s with score := some z }
    | _, d, s => (readList readMove d).map fun ms => { s with bestMoves := some ms }
  finish s := do
    return ⟨← s.position, ← s.level, ← s.depth, ← s.confidence, ← s.score, ← s.bestMoves⟩

def readEvaluation (d : Draft) : Except DecodeError Evaluation :=
  match evaluationRecord.read d with
  | .error e => .error e
  | .ok e => refuse e.validate

structure PairParts (α β : Type) where
  first : Option α := none
  second : Option β := none

/-- A record of two members that have to come. -/
def pairRecord (name₁ name₂ : String) (read₁ : Decoder α) (read₂ : Decoder β) :
    Record (PairParts α β) (α × β) where
  names := [name₁, name₂]
  start := {}
  member
    | 0, d, s => (read₁ d).map fun a => { s with first := some a }
    | _, d, s => (read₂ d).map fun b => { s with second := some b }
  finish s := do return (← s.first, ← s.second)

def readJob (d : Draft) : Except DecodeError Job :=
  ((pairRecord "position" "level" readPosition readByte).read d).map fun (p, n) => ⟨p, n⟩

/-- An offer of work; a member that does not come is no job. -/
def jobOfferRecord : Record (Option (Option Job)) (Option Job) where
  names := ["job"]
  start := none
  member _ d _ := (readOption readJob d).map some
  finish s := some s.join

def readJobOffer : Decoder (Option Job) := jobOfferRecord.read

def readJobResult (d : Draft) : Except DecodeError JobResult :=
  ((pairRecord "evaluation" "computation_time_seconds" readEvaluation readFloat).read d).map
    fun (e, x) => ⟨e, x⟩

def readIntroduction (d : Draft) : Except DecodeError Introduction :=
  ((pairRecord "hostname" "build_id" readString readString).read d).map fun (h, b) => ⟨h, b⟩

def readPositions : Decoder (List Position) :=
  (Record.single "positions" (readList readPosition)).read

def readEvaluations : Decoder (List Evaluation) :=
  (Record.single "evaluations" (readList readEvaluation)).read

structure CountParts where
  discs : Option Nat := none
  level : Option Nat := none
  count : Option Nat := none

def bookCountRecord : Record CountParts BookCount where
  names := ["disc_count", "level", "count"]
  start := {}
  member
    | 0, d, s => (readNat (1 <<< 32 - 1) d).map fun n => { s with discs := some n }
    | 1, d, s => (readByte d).map fun n => { s with level := some n }
    | _, d, s => (readNat (1 <<< 64 - 1) d).map fun n => { s with count := some n }
  finish s := do return ⟨← s.discs, ← s.level, ← s.count⟩

def readBookCount : Decoder BookCount := bookCountRecord.read

end OthelloBook.Wire
