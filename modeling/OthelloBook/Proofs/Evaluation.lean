import OthelloBook.Proofs.Position.Equivariance

/-!
# Images of evaluations, and what is made without a search

The image of an evaluation is one of the image of its position and otherwise says the same, so that
it is kept exactly when the evaluation is. The evaluation of a finished game and the one before a
forced pass are made without a search. All of these are valid.
-/
namespace OthelloBook

theorem mapError_eq_ok_iff {ε δ α : Type} {x : Except ε α} {f : ε → δ} {a : α} :
    x.mapError f = .ok a ↔ x = .ok a := by
  cases x <;> simp [Except.mapError]

namespace Position

variable (p : Position)

theorem finalScore_le : p.finalScore ≤ 64 := by
  have hown := p.own.count_le
  simp only [finalScore]
  split_ifs <;> omega

/-- The other side sees the same result with the opposite sign. -/
@[simp] theorem finalScore_pass : p.pass.finalScore = -p.finalScore := by
  simp only [finalScore, pass]
  split_ifs <;> omega

theorem le_finalScore : -64 ≤ p.finalScore := by
  have h := p.pass.finalScore_le
  rw [finalScore_pass] at h
  omega

end Position

namespace Level

theorem ofDepth_le (depth : ℕ) : ofDepth depth ≤ maximum := by
  simp only [ofDepth, maximum]
  omega

theorem ofDepth_even (depth : ℕ) : ofDepth depth % 2 = 0 := by
  simp only [ofDepth, maximum]
  omega

end Level

namespace Evaluation

variable (e : Evaluation) (s : Symmetry)

@[simp] theorem position_rotate : (e.rotate s).position = e.position.rotate s := rfl

@[simp] theorem level_rotate : (e.rotate s).level = e.level := rfl

@[simp] theorem strength_rotate : (e.rotate s).strength = e.strength := rfl

@[simp] theorem isSavable_rotate : (e.rotate s).isSavable = e.isSavable := by
  rw [isSavable, isSavable, level_rotate, position_rotate, Position.isSavable_rotate]

@[simp] theorem position_canonicalize : e.canonicalize.position = e.position.canonical := by
  rw [canonicalize, position_rotate, Position.canonical_eq_rotate]

@[simp] theorem level_canonicalize : e.canonicalize.level = e.level := by
  rw [canonicalize, level_rotate]

@[simp] theorem strength_canonicalize : e.canonicalize.strength = e.strength := by
  rw [canonicalize, strength_rotate]

theorem onMove_identity (m : Move) : Symmetry.identity.onMove m = m := by
  cases m with
  | play q => exact congrArg Move.play (Symmetry.onSquare_identity q)
  | pass => rfl

@[simp] theorem rotate_identity : e.rotate .identity = e := by
  have hmoves : e.bestMoves.map Symmetry.identity.onMove = e.bestMoves :=
    (List.map_congr_left fun m _ => onMove_identity m).trans (List.map_id _)
  rw [rotate, Position.rotate_identity, hmoves]

theorem rotate_andThen (t : Symmetry) : e.rotate (s.andThen t) = (e.rotate s).rotate t := by
  simp [rotate, Position.rotate_andThen, Symmetry.onMove_andThen]

@[simp] theorem rotate_rotate_inverse : (e.rotate s).rotate s.inverse = e := by
  simp [rotate, Function.comp_def]

@[simp] theorem rotate_inverse_rotate : (e.rotate s.inverse).rotate s = e := by
  simpa using e.rotate_rotate_inverse s.inverse

theorem beforePass_rotate : (e.rotate s).beforePass = e.beforePass.rotate s := rfl

theorem ofGameEnd_rotate (p : Position) : ofGameEnd (p.rotate s) = (ofGameEnd p).rotate s := by
  simp [ofGameEnd, rotate]

/-- An evaluation of a canonical position is as it is kept. -/
theorem canonicalize_of_canonical {e : Evaluation} (h : e.position.canonical = e.position) :
    e.canonicalize = e := by
  rw [canonicalize, Position.symmetry_eq_identity h, rotate_identity]

variable {e} in
/-- The image of a valid evaluation is valid: its moves replay from the image of its position. -/
theorem Valid.rotate (h : e.Valid) (s : Symmetry) : (e.rotate s).Valid where
  level_le := h.level_le
  level_even := h.level_even
  depth_le := h.depth_le
  le_score := h.le_score
  score_le := h.score_le
  replays := by
    have hreplays : e.position.firstIllegal? e.bestMoves = none := h.replays
    change (e.position.rotate s).firstIllegal? (e.bestMoves.map s.onMove) = none
    rw [Position.firstIllegal?_rotate, hreplays, Option.map_none]

variable {e} in
theorem Valid.canonicalize (h : e.Valid) : e.canonicalize.Valid := h.rotate _

/-- The evaluation of any position as a finished game is valid, also where the game goes on. -/
theorem valid_ofGameEnd (p : Position) : (ofGameEnd p).Valid where
  level_le := Level.ofDepth_le _
  level_even := Level.ofDepth_even _
  depth_le := Nat.min_le_right _ _
  le_score := p.le_finalScore
  score_le := p.finalScore_le
  replays := rfl

variable {e} in
/-- A pass may come before the moves of an evaluation when the other side could not place a disc. -/
theorem Valid.beforePass (h : e.Valid) (hblocked : e.position.pass.hasMoves = false) :
    e.beforePass.Valid where
  level_le := h.level_le
  level_even := h.level_even
  depth_le := h.depth_le
  le_score := by
    have := h.score_le
    simp only [Evaluation.beforePass]
    omega
  score_le := by
    have := h.le_score
    simp only [Evaluation.beforePass]
    omega
  replays := by
    have hpass : e.position.pass.after? .pass = some e.position := by
      rw [Position.after?, if_neg (by simp [hblocked]), Position.pass_pass]
    have hreplays : e.position.firstIllegal? e.bestMoves = none := h.replays
    change e.position.pass.firstIllegal? (.pass :: e.bestMoves) = none
    rw [Position.firstIllegal?, hpass]
    exact hreplays

@[simp] theorem isSavable_canonicalize : e.canonicalize.isSavable = e.isSavable := by
  rw [canonicalize, isSavable_rotate]

/-- The checks pass valid evaluations on as they are, and no others. -/
theorem validate_eq_ok_iff {f : Evaluation} : e.validate = .ok f ↔ e.Valid ∧ e = f := by
  rw [validate, ← fault?_eq_none_iff]
  cases e.fault? <;> simp

end Evaluation
end OthelloBook
