import OthelloBook.Cache
import OthelloBook.Engine.Table

/-!
# Engines

Whatever searches positions. An engine is only asked about positions with a legal square; a
finished game needs no search, and a forced pass is searched from the other side.
-/
namespace OthelloBook

structure Engine (σ : Type) where
  search (p : Position) (level : Nat) : σ → Except EngineError Evaluation × σ

namespace Engine

def evaluate (engine : Engine σ) (p : Position) (level : Nat) (st : σ) :
    Except EngineError Evaluation × σ :=
  match LookupRule.of p with
  | .gameEnd => (.ok (.ofGameEnd p), st)
  | .pass =>
    let (answer, st) := engine.search p.pass level st
    (answer.map Evaluation.beforePass, st)
  | .stored => engine.search p level st

/-- The evaluation of a position that the numbers of a row make, if they are valid. -/
def ofRow (p : Position) (level : Nat) (r : SearchRow) : Except EngineError Evaluation :=
  ((Confidence.ofPercent r.confidence).bind fun confidence =>
    Evaluation.validate ⟨p, level, r.depth, confidence, r.score, r.bestMoves⟩).mapError .book

end Engine

/-! ## Scripted engines

An engine that answers by a fixed rule, for trying out whatever uses an engine. It keeps a list of
what it was asked. -/

structure Script where
  /-- The error of every search. -/
  fail : Option EngineError := none
  /-- How many moves an answer has, where the game lasts so long. -/
  moves : Nat := 1
  confidence : Nat := 73
  /-- The depth, if it is not the level. -/
  depth : Option Nat := none
  score : Int := 0
  deriving DecidableEq

namespace Script

/-- The move on the lowest legal square, a pass where only the other side can move, and none in a
finished game. -/
def firstMove? (p : Position) : Option Move :=
  match p.moves.lowest? with
  | some s => some (.play s)
  | none => if p.pass.hasMoves then some .pass else none

def line : Nat → Position → List Move
  | 0, _ => []
  | n + 1, p =>
    match firstMove? p with
    | none => []
    | some m =>
      match p.after? m with
      | some q => m :: line n q
      | none => []

def answer (s : Script) (p : Position) (level : Nat) : Except EngineError Evaluation :=
  match s.fail with
  | some e => .error e
  | none => Engine.ofRow p level ⟨s.depth.getD level, s.confidence, s.score, line s.moves p⟩

/-- The engine of a script; its state is what it was asked, last search first. -/
def engine (s : Script) : Engine (List (Position × Nat)) where
  search p level searched := (s.answer p level, (p, level) :: searched)

end Script

end OthelloBook
