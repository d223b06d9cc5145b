import OthelloBook.Position.Basic
import OthelloBook.Text.Quoted

/-!
# Faults of the book

Why a text, a move or an evaluation is refused, and the message that says so. Each constructor is
one cause and holds what its message names.
-/
namespace OthelloBook

inductive ParseFault where
  | square (text : String)
  | moveIndex (index : Int)
  | boardTooLong
  | boardChar (c : Char)
  | boardSize (squares : Nat)
  | positionShape (text : String)
  | positionDigit (text : String)
  | blobSize (bytes : Nat)
  deriving DecidableEq, Repr

namespace ParseFault

def message : ParseFault → String
  | .square s => "invalid square: " ++ Text.quote s
  | .moveIndex i => "invalid move index: " ++ toString i
  | .boardTooLong => "board string longer than 64 squares"
  | .boardChar c => "unexpected character " ++ Text.quoteChar c ++ " in board string"
  | .boardSize n => "board string has " ++ toString n ++ " squares, expected 64"
  | .positionShape s => "position must be 32 hex characters, got " ++ Text.quote s
  | .positionDigit s =>
    "invalid position hex " ++ Text.quote s ++ ": invalid digit found in string"
  | .blobSize n => "position blob has " ++ toString n ++ " bytes, expected 16"

end ParseFault

/-- Why an evaluation is not accepted, or not under the position it is given for. -/
inductive EvaluationFault where
  | confidence (percent : Nat)
  | level (level : Nat)
  | depth (depth : Nat)
  | score (score : Int)
  | replay (position : Position) (move : Move)
  | notCanonical (position : Position)
  | misfiled (position key : Position)
  | outOfRange (column : String) (value : Int)
  deriving DecidableEq

inductive BookError where
  | overlap (own opposing : Mask)
  | illegalMove (position : Position) (move : Move)
  | notFound (position : Position)
  | evaluation (fault : EvaluationFault)
  | parse (fault : ParseFault)
  deriving DecidableEq

def illegalMoveMessage (p : Position) (m : Move) : String :=
  "illegal move " ++ m.name ++ " in position " ++ p.text

namespace EvaluationFault

def message : EvaluationFault → String
  | .confidence n => "unknown confidence " ++ toString n ++ "%"
  | .level n => "level " ++ toString n ++ " is not an even number in 0..=60"
  | .depth n => "depth " ++ toString n ++ " exceeds 60"
  | .score z => "score " ++ toString z ++ " outside [-64, 64]"
  | .replay p m => "best moves do not replay: " ++ illegalMoveMessage p m
  | .notCanonical p => "position " ++ p.text ++ " is not canonical"
  | .misfiled p key => "evaluation of " ++ p.text ++ " added under " ++ key.text
  | .outOfRange column v => "stored " ++ column ++ " " ++ toString v ++ " out of range"

end EvaluationFault

namespace BookError

/-- A mask in a message: sixteen digits after `0x`. -/
def maskMessage (m : Mask) : String := "0x" ++ String.ofList (Position.maskText m)

def message : BookError → String
  | .overlap own opposing =>
    "invalid position: me " ++ maskMessage own ++ " and opp " ++ maskMessage opposing ++ " overlap"
  | .illegalMove p m => illegalMoveMessage p m
  | .notFound p => "no evaluation for position " ++ p.text
  | .evaluation f => "invalid evaluation: " ++ f.message
  | .parse f => "parse error: " ++ f.message

end BookError
end OthelloBook
