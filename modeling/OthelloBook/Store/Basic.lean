import OthelloBook.Evaluation
import OthelloBook.Position.Reader

/-!
# The store

The book as it lasts: at most one row for each position, in the order in which the rows came. A
save takes two steps, each of which is a single change of the store: a row is inserted where there
is none, or else replaces the one there if that one is of a lower grade. Several saves may be under
way at once, and then their steps interleave.
-/
namespace OthelloBook

/-! ## Rows

How an evaluation is kept: its position and moves as bytes, all else as integers, and a priority
for those who hand out work. A row is read back with checks, since nothing but the integers'
width is known of what is stored. -/

/-- The strength of a search as the store compares it: depth, confidence and level. -/
structure Grade where
  depth : Int
  confidence : Int
  level : Int
  deriving DecidableEq, Repr

namespace Grade

def below (a b : Grade) : Bool :=
  a.depth < b.depth ||
    (a.depth = b.depth &&
      (a.confidence < b.confidence || (a.confidence = b.confidence && a.level < b.level)))

instance : LT Grade := ⟨fun a b => below a b = true⟩

instance (a b : Grade) : Decidable (a < b) := inferInstanceAs (Decidable (_ = true))

end Grade

def Strength.grade (s : Strength) : Grade := ⟨s.depth, s.confidence.percent, s.level⟩

/-- The byte that stands for a move in the store; a pass is 255. -/
def Move.byte : Move → UInt8
  | .play s => s.val.toUInt8
  | .pass => 255

/-- The move that a byte stands for, read as a signed integer. -/
def Move.ofByte (b : UInt8) : Except BookError Move :=
  Move.ofIndex (if b.toNat < 128 then b.toNat else b.toNat - 256)

structure Row where
  position : List UInt8
  discCount : Int
  level : Int
  depth : Int
  confidence : Int
  score : Int
  bestMoves : List UInt8
  priority : Int
  deriving DecidableEq, Repr

/-- Work of a lower priority comes first: low levels before high ones, few discs before many. -/
def learnPriority (level discs : Nat) : Nat := 3 * level + discs

namespace Row

def grade (r : Row) : Grade := ⟨r.depth, r.confidence, r.level⟩

def ofEvaluation (e : Evaluation) : Row where
  position := e.position.bytes
  discCount := e.position.discCount
  level := e.level
  depth := e.depth
  confidence := e.confidence.percent
  score := e.score
  bestMoves := e.bestMoves.map Move.byte
  priority := learnPriority e.level e.position.discCount

def byteColumn (name : String) (v : Int) : Except BookError Nat :=
  if 0 ≤ v ∧ v ≤ 255 then .ok v.toNat else .error (.evaluation (.outOfRange name v))

def scoreColumn (v : Int) : Except BookError Int :=
  if -128 ≤ v ∧ v ≤ 127 then .ok v else .error (.evaluation (.outOfRange "score" v))

/-- The evaluation of a row, or the first thing in it that is wrong. -/
def evaluation (r : Row) : Except BookError Evaluation := do
  let bestMoves ← r.bestMoves.mapM Move.ofByte
  let position ← Position.ofBytes r.position
  let level ← byteColumn "level" r.level
  let depth ← byteColumn "depth" r.depth
  let confidence ← Confidence.ofPercent (← byteColumn "confidence" r.confidence)
  let score ← scoreColumn r.score
  Evaluation.validate ⟨position, level, depth, confidence, score, bestMoves⟩

end Row

/-! ## Changes of the store -/

inductive StoreError where
  | database
  | corrupt (e : BookError)
  deriving DecidableEq

def corruptMessage (e : BookError) : String := "corrupt stored evaluation: " ++ e.message

inductive SaveOutcome where
  | notSavable | inserted | upgraded | kept
  deriving DecidableEq, Repr

def SaveOutcome.isChange : SaveOutcome → Bool
  | .inserted => true
  | .upgraded => true
  | _ => false

/-- The rows in the order in which they were inserted. -/
structure Store where
  rows : List Row
  deriving DecidableEq

namespace Store

def empty : Store := ⟨[]⟩

def size (s : Store) : Nat := s.rows.length

def find? (s : Store) (position : List UInt8) : Option Row :=
  s.rows.find? fun r => r.position = position

def insertIfAbsent (s : Store) (r : Row) : Option Store :=
  if s.rows.any fun q => q.position = r.position then none else some ⟨s.rows ++ [r]⟩

/-- Whether `new` takes the place of `old`: it is for the same position and of a higher grade. -/
def replaces (new old : Row) : Bool :=
  decide (old.position = new.position) && decide (old.grade < new.grade)

/-- Replaces the row of the same position if it is of a lower grade. The number of discs stays as
it is stored. -/
def upgrade (s : Store) (r : Row) : Option Store :=
  if s.rows.any (replaces r) then
    some ⟨s.rows.map fun q => if replaces r q then { r with discCount := q.discCount } else q⟩
  else none

def put (s : Store) (r : Row) : SaveOutcome × Store :=
  match s.insertIfAbsent r with
  | some s => (.inserted, s)
  | none =>
    match s.upgrade r with
    | some s => (.upgraded, s)
    | none => (.kept, s)

/-- Saves an evaluation under its canonical position, if the book keeps such evaluations. -/
def save (s : Store) (e : Evaluation) : SaveOutcome × Store :=
  if e.isSavable then s.put (.ofEvaluation e.canonicalize) else (.notSavable, s)

def saveAll (s : Store) (es : List Evaluation) : Nat × Store :=
  es.foldl (fun (n, s) e =>
    let (outcome, s) := s.save e
    (if outcome.isChange then n + 1 else n, s)) (0, s)

/-- Inserts a row as it is; the position must be new. -/
def insertRow (s : Store) (r : Row) : Except StoreError Store :=
  match s.insertIfAbsent r with
  | some s => .ok s
  | none => .error .database

end Store

end OthelloBook
