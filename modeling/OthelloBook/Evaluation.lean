import OthelloBook.Level
import OthelloBook.Position.Play
import OthelloBook.Symmetry

/-!
# Evaluations

What an engine says about a position: a score from the mover's side, how it was found, and the
moves that lead to it. `fault?_eq_none_iff` says that the checks made on an evaluation from
outside are exactly validity.
-/
namespace OthelloBook

structure Evaluation where
  position : Position
  level : Nat
  depth : Nat
  confidence : Confidence
  score : Int
  bestMoves : List Move
  deriving DecidableEq

namespace Evaluation

structure Valid (e : Evaluation) : Prop where
  level_le : e.level ≤ 60
  level_even : e.level % 2 = 0
  depth_le : e.depth ≤ 60
  le_score : -64 ≤ e.score
  score_le : e.score ≤ 64
  replays : e.position.Replays e.bestMoves

/-- The first thing that is wrong, in the order level, depth, score, moves. -/
def fault? (e : Evaluation) : Option EvaluationFault :=
  if e.level > 60 ∨ e.level % 2 ≠ 0 then some (.level e.level)
  else if e.depth > 60 then some (.depth e.depth)
  else if e.score < -64 ∨ 64 < e.score then some (.score e.score)
  else (e.position.firstIllegal? e.bestMoves).map fun (p, m) => .replay p m

theorem fault?_eq_none_iff (e : Evaluation) : e.fault? = none ↔ e.Valid := by
  constructor
  · intro h
    simp only [fault?] at h
    split at h
    · cases h
    split at h
    · cases h
    split at h
    · cases h
    · exact ⟨by omega, by omega, by omega, by omega, by omega, by simpa [Position.Replays] using h⟩
  · rintro ⟨h1, h2, h3, h4, h5, h6⟩
    have h6 : e.position.firstIllegal? e.bestMoves = none := h6
    simp only [fault?]
    rw [if_neg (by omega), if_neg (by omega), if_neg (by omega), h6]
    rfl

def validate (e : Evaluation) : Except BookError Evaluation :=
  match e.fault? with
  | none => .ok e
  | some f => .error (.evaluation f)

/-- A finished game needs no search: the score is the result, found at full confidence. -/
def ofGameEnd (p : Position) : Evaluation where
  position := p
  level := Level.ofDepth p.emptyCount
  depth := min p.emptyCount 60
  confidence := .p100
  score := p.finalScore
  bestMoves := []

/-- The evaluation before a forced pass, from the one after it. -/
def beforePass (e : Evaluation) : Evaluation :=
  { e with position := e.position.pass, score := -e.score, bestMoves := .pass :: e.bestMoves }

def bestMove? (e : Evaluation) : Option Move := e.bestMoves.head?

def strength (e : Evaluation) : Strength := ⟨e.depth, e.confidence, e.level⟩

/-- Only a stronger search is better; of two equal ones neither is. -/
def isBetterThan (e other : Evaluation) : Bool := other.strength < e.strength

/-- The book keeps evaluations of savable positions at a level worth keeping. -/
def isSavable (e : Evaluation) : Bool :=
  decide (Level.minimum ≤ e.level) && e.position.isSavable

def rotate (e : Evaluation) (s : Symmetry) : Evaluation :=
  { e with position := e.position.rotate s, bestMoves := e.bestMoves.map s.onMove }

def unrotate (e : Evaluation) (s : Symmetry) : Evaluation := e.rotate s.inverse

def canonicalize (e : Evaluation) : Evaluation := e.rotate e.position.canonicalize.2

/-- A score with its sign, which zero has too. -/
def scoreText (z : Int) : String := if 0 ≤ z then "+" ++ toString z else toString z

def text (e : Evaluation) : String :=
  e.position.text ++ " level " ++ toString e.level ++ " depth " ++ toString e.depth ++ "@" ++
    e.confidence.text ++ " score " ++ scoreText e.score ++
    match e.bestMove? with
    | some m => " best " ++ m.name
    | none => ""

end Evaluation
end OthelloBook
