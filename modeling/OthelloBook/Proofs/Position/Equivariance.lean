import OthelloBook.Cache
import OthelloBook.Proofs.Position.Canonical
import OthelloBook.Proofs.Position.LegalMoves

/-!
# The rules do not depend on the orientation

The image of a move is legal in the image of a position exactly when the move is legal, and leads to
the image of the position after it. With the moves all that is decided by them is the same for all
images: whether the game is over, the result, what is kept and under which key.
-/
namespace OthelloBook

open Position

namespace Position

@[simp] theorem moves_rotate (p : Position) (s : Symmetry) :
    (p.rotate s).moves = s.onMask p.moves := by
  apply Mask.eq_of_contains
  intro t
  obtain ⟨q, rfl⟩ := s.onSquare_surjective t
  rw [Symmetry.contains_onMask, Bool.eq_iff_iff, contains_moves, contains_moves]
  simp [rotate, Symmetry.flips_onMask, Symmetry.onMask_eq_zero_iff]

@[simp] theorem hasMoves_rotate (p : Position) (s : Symmetry) :
    (p.rotate s).hasMoves = p.hasMoves := by
  simp [hasMoves, bne, Bool.beq_eq_decide_eq, Symmetry.onMask_eq_zero_iff]

@[simp] theorem pass_rotate (p : Position) (s : Symmetry) :
    (p.rotate s).pass = p.pass.rotate s := rfl

@[simp] theorem discCount_rotate (p : Position) (s : Symmetry) :
    (p.rotate s).discCount = p.discCount := by
  simp [discCount, rotate, Symmetry.count_onMask]

theorem claimed_rotate (p : Position) (s : Symmetry) (q : Square) :
    (p.rotate s).claimed (s.onSquare q) = s.onMask (p.claimed q) := by
  rw [claimed, claimed, Symmetry.onMask_or, Symmetry.onMask_or, Symmetry.onMask_single,
    ← Symmetry.flips_onMask]
  rfl

theorem place_rotate (p : Position) (s : Symmetry) (q : Square) :
    (p.rotate s).place (s.onSquare q) = (p.place q).rotate s := by
  apply eq_of_masks
  · change s.onMask p.opposing &&& ~~~(p.rotate s).claimed (s.onSquare q) =
      s.onMask (p.opposing &&& ~~~p.claimed q)
    rw [claimed_rotate, Symmetry.onMask_and, Symmetry.onMask_not]
  · exact p.claimed_rotate s q

/-- The rule of the game commutes with the symmetries. -/
theorem after?_rotate (p : Position) (s : Symmetry) (m : Move) :
    (p.rotate s).after? (s.onMove m) = (p.after? m).map (·.rotate s) := by
  cases m with
  | pass =>
    rw [Symmetry.onMove, after?, after?, hasMoves_rotate, pass_rotate]
    split <;> rfl
  | play q =>
    rw [Symmetry.onMove, after?_play, after?_play, moves_rotate, Symmetry.contains_onMask,
      place_rotate]
    split <;> rfl

theorem toOption_apply (p : Position) (m : Move) : (p.apply m).toOption = p.after? m := by
  rw [apply]
  cases p.after? m <;> rfl

theorem toOption_applyAll_cons (p : Position) (m : Move) (ms : List Move) :
    (p.applyAll (m :: ms)).toOption = (p.after? m).bind fun q => (q.applyAll ms).toOption := by
  rw [applyAll, apply]
  cases p.after? m <;> rfl

theorem toOption_applyAll_rotate (p : Position) (s : Symmetry) (ms : List Move) :
    ((p.rotate s).applyAll (ms.map s.onMove)).toOption =
      (p.applyAll ms).toOption.map (·.rotate s) := by
  induction ms generalizing p with
  | nil => rfl
  | cons m ms ih =>
    rw [List.map_cons, toOption_applyAll_cons, toOption_applyAll_cons, after?_rotate]
    cases p.after? m with
    | none => rfl
    | some q => exact ih q

/-- The first illegal move of a sequence of images is the image of the first illegal move. -/
theorem firstIllegal?_rotate (p : Position) (s : Symmetry) (ms : List Move) :
    (p.rotate s).firstIllegal? (ms.map s.onMove) =
      (p.firstIllegal? ms).map fun (q, m) => (q.rotate s, s.onMove m) := by
  induction ms generalizing p with
  | nil => rfl
  | cons m ms ih =>
    rw [List.map_cons, firstIllegal?, firstIllegal?, after?_rotate]
    cases p.after? m with
    | none => rfl
    | some q => exact ih q

@[simp] theorem emptyCount_rotate (p : Position) (s : Symmetry) :
    (p.rotate s).emptyCount = p.emptyCount := by
  rw [emptyCount, emptyCount, discCount_rotate]

@[simp] theorem finalScore_rotate (p : Position) (s : Symmetry) :
    (p.rotate s).finalScore = p.finalScore := by
  simp [finalScore, rotate, Symmetry.count_onMask]

@[simp] theorem isSavable_rotate (p : Position) (s : Symmetry) :
    (p.rotate s).isSavable = p.isSavable := by
  simp [isSavable]

@[simp] theorem isSavable_canonical (p : Position) : p.canonical.isSavable = p.isSavable := by
  rw [canonical_eq_rotate, isSavable_rotate]

@[simp] theorem discCount_canonical (p : Position) : p.canonical.discCount = p.discCount := by
  rw [canonical_eq_rotate, discCount_rotate]

end Position

namespace LookupRule

@[simp] theorem of_rotate (p : Position) (s : Symmetry) : of (p.rotate s) = of p := by
  simp [of]

@[simp] theorem storageKey?_rotate (p : Position) (s : Symmetry) :
    storageKey? (p.rotate s) = storageKey? p := by
  simp [storageKey?]

end LookupRule

/-- The image of a move, or of a sequence of moves, can be played in the image of a position exactly
when it can be played, and leads to the image of what it leads to. What the moves and the numbers of
discs decide is the same for all images. -/
theorem Position.rules_commute_with_rotate (p : Position) (s : Symmetry) :
    (∀ m, ((p.rotate s).apply (s.onMove m)).toOption = (p.apply m).toOption.map (·.rotate s)) ∧
    (∀ ms, ((p.rotate s).applyAll (ms.map s.onMove)).toOption =
      (p.applyAll ms).toOption.map (·.rotate s)) ∧
    (p.rotate s).moves = s.onMask p.moves ∧
    (p.rotate s).isGameEnd = p.isGameEnd ∧
    (p.rotate s).isForcedPass = p.isForcedPass ∧
    (p.rotate s).finalScore = p.finalScore ∧
    (p.rotate s).isSavable = p.isSavable ∧
    LookupRule.of (p.rotate s) = LookupRule.of p ∧
    LookupRule.storageKey? (p.rotate s) = LookupRule.storageKey? p := by
  refine ⟨fun m => ?_, p.toOption_applyAll_rotate s, p.moves_rotate s, ?_, ?_, ?_,
    p.isSavable_rotate s, LookupRule.of_rotate p s, LookupRule.storageKey?_rotate p s⟩
  · rw [toOption_apply, toOption_apply, after?_rotate]
  · simp [isGameEnd]
  · simp [isForcedPass]
  · simp [finalScore, rotate, Symmetry.count_onMask]

end OthelloBook
