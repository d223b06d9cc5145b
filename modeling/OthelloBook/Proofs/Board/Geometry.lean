import OthelloBook.Board.Square
import Mathlib.Tactic

/-!
# Neighbouring squares

A step changes both coordinates by what its direction says and exists exactly when they stay on
the board. A step in the opposite direction leads back.
-/
namespace OthelloBook

def Direction.opposite : Direction → Direction
  | .north => .south
  | .northEast => .southWest
  | .east => .west
  | .southEast => .northWest
  | .south => .north
  | .southWest => .northEast
  | .west => .east
  | .northWest => .southEast

@[simp] theorem Direction.opposite_opposite (d : Direction) : d.opposite.opposite = d := by
  cases d <;> rfl

@[simp] theorem Direction.fileStep_opposite (d : Direction) :
    d.opposite.fileStep = -d.fileStep := by
  cases d <;> rfl

@[simp] theorem Direction.rankStep_opposite (d : Direction) :
    d.opposite.rankStep = -d.rankStep := by
  cases d <;> rfl

namespace Square

theorem val_eq (s : Square) : s.val = 8 * s.rank.val + s.file.val := by
  simp only [file, rank]
  omega

theorem ofFileRank_eq_iff {f r : Fin 8} {s : Square} :
    ofFileRank f r = s ↔ f = s.file ∧ r = s.rank := by
  constructor
  · rintro rfl
    simp
  · rintro ⟨rfl, rfl⟩
    exact ofFileRank_file_rank s

theorem ofIndex?_eq_some_iff {n : ℕ} {s : Square} : ofIndex? n = some s ↔ n = s.val := by
  rw [ofIndex?]
  split
  · rw [Option.some.injEq, Fin.ext_iff]
  · have hs := s.isLt
    simp only [reduceCtorEq, false_iff]
    omega

theorem shift?_eq_some_iff {c c' : Fin 8} {δ : Int} :
    shift? c δ = some c' ↔ (c'.val : Int) = c.val + δ := by
  simp only [shift?]
  split
  · rw [Option.some.injEq, Fin.ext_iff]
    simp only
    omega
  · simp only [reduceCtorEq, false_iff]
    omega

theorem step?_eq_some_iff {d : Direction} {s t : Square} :
    step? d s = some t ↔
      (t.file.val : Int) = s.file.val + d.fileStep ∧
        (t.rank.val : Int) = s.rank.val + d.rankStep := by
  rw [← shift?_eq_some_iff, ← shift?_eq_some_iff, step?]
  cases hf : shift? s.file d.fileStep with
  | none => simp
  | some f =>
    cases hr : shift? s.rank d.rankStep with
    | none => simp
    | some r => simp [ofFileRank_eq_iff]

theorem step?_opposite {d : Direction} {s t : Square} :
    step? d.opposite s = some t ↔ step? d t = some s := by
  simp only [step?_eq_some_iff, Direction.fileStep_opposite, Direction.rankStep_opposite]
  omega

/-- A step changes the index of the square by the same number everywhere. -/
theorem val_step? {d : Direction} {s t : Square} (h : step? d s = some t) :
    (t.val : Int) = s.val + (d.fileStep + 8 * d.rankStep) := by
  rw [step?_eq_some_iff] at h
  rw [val_eq s, val_eq t]
  push_cast
  omega

end Square
end OthelloBook
