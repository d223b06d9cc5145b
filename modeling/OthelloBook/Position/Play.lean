import OthelloBook.Error

/-!
# Playing moves

Moves and sequences of moves, with the reason when one is refused. A sequence stops at its first
illegal move.
-/
namespace OthelloBook.Position

def ofMasks (own opposing : Mask) : Except BookError Position :=
  match ofMasks? own opposing with
  | some p => .ok p
  | none => .error (.overlap own opposing)

def apply (p : Position) (m : Move) : Except BookError Position :=
  match p.after? m with
  | some q => .ok q
  | none => .error (.illegalMove p m)

def applyAll : Position → List Move → Except BookError Position
  | p, [] => .ok p
  | p, m :: ms =>
    match p.apply m with
    | .ok q => applyAll q ms
    | .error e => .error e

/-- The first move of a sequence that is illegal where it is played, with the position there. -/
def firstIllegal? : Position → List Move → Option (Position × Move)
  | _, [] => none
  | p, m :: ms =>
    match p.after? m with
    | some q => firstIllegal? q ms
    | none => some (p, m)

def Replays (p : Position) (ms : List Move) : Prop := p.firstIllegal? ms = none

instance (p : Position) (ms : List Move) : Decidable (p.Replays ms) :=
  inferInstanceAs (Decidable (_ = _))

theorem applyAll_eq_error_iff {p : Position} {ms : List Move} {e : BookError} :
    p.applyAll ms = .error e ↔
      ∃ q m, p.firstIllegal? ms = some (q, m) ∧ e = .illegalMove q m := by
  induction ms generalizing p with
  | nil => simp [applyAll, firstIllegal?]
  | cons m ms ih =>
    cases h : p.after? m with
    | none => simp [applyAll, firstIllegal?, apply, h, eq_comm, and_assoc]
    | some q => simp [applyAll, firstIllegal?, apply, h, ih]

/-! ## Counting games

The number of ways a game can continue for some moves, counted modulo the size of a word. A forced
pass is not a move, and a finished game counts as one. The last move is not played: its number is
the number of legal squares.

A pass goes on with the same number of moves, so that the depth alone does not bound the recursion.
But no pass follows another one, as the side that is passed to has a move. -/

/-- Whether the side to move cannot place a disc, as a number that a forced pass makes smaller. -/
def blocked (p : Position) : Nat := if p.hasMoves then 0 else 1

theorem blocked_pass_lt {p : Position} (h : ¬p.hasMoves) (hpass : p.pass.hasMoves) :
    p.pass.blocked < p.blocked := by
  simp [blocked, h, hpass]

/-- The number of continuations with `depth` more discs; at least one disc is counted. -/
def perft (p : Position) (depth : Nat) : UInt64 :=
  if p.hasMoves then
    if depth ≤ 1 then p.moves.count.toUInt64
    else (p.children.map fun child => child.2.perft (depth - 1)).foldr (· + ·) 0
  else if p.pass.hasMoves then p.pass.perft depth
  else 1
termination_by (depth, p.blocked)
decreasing_by
  · exact Prod.Lex.left _ _ (by omega)
  · exact Prod.Lex.right _ (blocked_pass_lt ‹_› ‹_›)

end OthelloBook.Position
