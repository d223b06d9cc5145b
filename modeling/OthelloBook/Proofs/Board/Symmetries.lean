import OthelloBook.Proofs.Board.Captures
import OthelloBook.Symmetry

/-!
# The symmetries move squares

The three steps on words move every square as the coordinates say: they preserve intersections, so
that it is enough to know what they do to single squares. A symmetry takes neighbours to
neighbours, and with them rays, runs and captures.
-/
namespace OthelloBook

def Direction.reverseFiles : Direction → Direction
  | .northEast => .northWest
  | .east => .west
  | .southEast => .southWest
  | .northWest => .northEast
  | .west => .east
  | .southWest => .southEast
  | d => d

def Direction.reverseRanks : Direction → Direction
  | .north => .south
  | .northEast => .southEast
  | .northWest => .southWest
  | .south => .north
  | .southEast => .northEast
  | .southWest => .northWest
  | d => d

def Direction.transpose : Direction → Direction
  | .north => .west
  | .northEast => .southWest
  | .east => .south
  | .south => .east
  | .southWest => .northEast
  | .west => .north
  | d => d

namespace Direction

variable (d : Direction)

@[simp] theorem fileStep_reverseFiles : d.reverseFiles.fileStep = -d.fileStep := by
  cases d <;> rfl

@[simp] theorem rankStep_reverseFiles : d.reverseFiles.rankStep = d.rankStep := by
  cases d <;> rfl

@[simp] theorem fileStep_reverseRanks : d.reverseRanks.fileStep = d.fileStep := by
  cases d <;> rfl

@[simp] theorem rankStep_reverseRanks : d.reverseRanks.rankStep = -d.rankStep := by
  cases d <;> rfl

@[simp] theorem fileStep_transpose : d.transpose.fileStep = d.rankStep := by
  cases d <;> rfl

@[simp] theorem rankStep_transpose : d.transpose.rankStep = d.fileStep := by
  cases d <;> rfl

end Direction

namespace Symmetry

def onDirection (s : Symmetry) (d : Direction) : Direction :=
  let d := if s.reversesFiles then d.reverseFiles else d
  let d := if s.reversesRanks then d.reverseRanks else d
  if s.transposes then d.transpose else d

@[simp] theorem onDirection_onDirection_inverse (s : Symmetry) (d : Direction) :
    s.onDirection (s.inverse.onDirection d) = d := by
  rcases s with ⟨_ | _, _ | _, _ | _⟩ <;> cases d <;> rfl

@[simp] theorem onSquare_onSquare_inverse (s : Symmetry) (q : Square) :
    s.onSquare (s.inverse.onSquare q) = q := by
  rcases s with ⟨_ | _, _ | _, _ | _⟩ <;>
    simp [onSquare, inverse, Square.ofFileRank_file_rank]

@[simp] theorem onSquare_inverse_onSquare (s : Symmetry) (q : Square) :
    s.inverse.onSquare (s.onSquare q) = q := by
  simpa using s.inverse.onSquare_onSquare_inverse q

@[simp] theorem onSquare_identity (q : Square) : identity.onSquare q = q :=
  Square.ofFileRank_file_rank q

@[simp] theorem onMask_identity (m : Mask) : identity.onMask m = m := rfl

theorem onSquare_inj {s : Symmetry} {q r : Square} : s.onSquare q = s.onSquare r ↔ q = r :=
  (Function.LeftInverse.injective s.onSquare_inverse_onSquare).eq_iff

theorem onSquare_surjective (s : Symmetry) : Function.Surjective s.onSquare := fun q =>
  ⟨s.inverse.onSquare q, s.onSquare_onSquare_inverse q⟩

theorem onDirection_surjective (s : Symmetry) : Function.Surjective s.onDirection := fun d =>
  ⟨s.inverse.onDirection d, s.onDirection_onDirection_inverse d⟩

theorem onMask_single (s : Symmetry) (q : Square) :
    s.onMask (Mask.single q) = Mask.single (s.onSquare q) := by
  rcases s with ⟨_ | _, _ | _, _ | _⟩ <;> revert q <;> decide +kernel

/-- The image of a mask contains the images of its squares. -/
@[simp] theorem contains_onMask (s : Symmetry) (m : Mask) (q : Square) :
    (s.onMask m).contains (s.onSquare q) = m.contains q := by
  have hmeet : s.onMask m &&& Mask.single (s.onSquare q) = s.onMask (m &&& Mask.single q) := by
    rw [onMask_and, onMask_single]
  rw [Mask.contains, hmeet]
  cases hq : m.contains q with
  | false =>
    have hzero : m &&& Mask.single q = 0 := by simpa [Mask.contains] using hq
    simp [hzero]
  | true =>
    have hsingle : m &&& Mask.single q = Mask.single q := by
      apply Mask.eq_of_contains
      intro t
      by_cases ht : q = t
      · simp [← ht, hq]
      · simp [ht]
    rw [hsingle, onMask_single, bne_iff_ne, Mask.ne_zero_iff]
    exact ⟨s.onSquare q, by simp⟩

theorem contains_onMask_eq (s : Symmetry) (m : Mask) (q : Square) :
    (s.onMask m).contains q = m.contains (s.inverse.onSquare q) := by
  rw [← contains_onMask s m, onSquare_onSquare_inverse]

theorem onMask_or (s : Symmetry) (a b : Mask) : s.onMask (a ||| b) = s.onMask a ||| s.onMask b :=
  Mask.eq_of_contains fun q => by simp [contains_onMask_eq]

theorem onMask_not (s : Symmetry) (m : Mask) : s.onMask (~~~m) = ~~~s.onMask m :=
  Mask.eq_of_contains fun q => by simp [contains_onMask_eq]

@[simp] theorem onMask_inverse_onMask (s : Symmetry) (m : Mask) :
    s.inverse.onMask (s.onMask m) = m :=
  Mask.eq_of_contains fun q => by simp [contains_onMask_eq]

theorem onMask_eq_zero_iff {s : Symmetry} {m : Mask} : s.onMask m = 0 ↔ m = 0 := by
  constructor
  · intro h
    rw [← s.onMask_inverse_onMask m, h, onMask_zero]
  · rintro rfl
    exact onMask_zero s

/-- A symmetry keeps the number of discs. -/
theorem count_onMask (s : Symmetry) (m : Mask) : (s.onMask m).count = m.count := by
  have hperm : (Square.all.map s.inverse.onSquare).Perm Square.all := by
    have hinj : Function.Injective s.inverse.onSquare := fun q r h => onSquare_inj.1 h
    refine (List.perm_ext_iff_of_nodup ((List.nodup_finRange 64).map hinj)
      (List.nodup_finRange 64)).2 fun q => ?_
    exact ⟨fun _ => Square.mem_all q, fun _ =>
      List.mem_map.2 ⟨s.onSquare q, Square.mem_all _, s.onSquare_inverse_onSquare q⟩⟩
  calc
    (s.onMask m).count = (Square.all.map s.inverse.onSquare).countP m.contains := by
      rw [Mask.count, List.countP_map]
      congr 1
      funext q
      exact contains_onMask_eq s m q
    _ = m.count := hperm.countP_eq _

/-- One symmetry after another. A reversal that follows an exchange of files and ranks is the other
reversal before it. -/
def andThen (s t : Symmetry) : Symmetry where
  reversesFiles := s.reversesFiles ^^ (if s.transposes then t.reversesRanks else t.reversesFiles)
  reversesRanks := s.reversesRanks ^^ (if s.transposes then t.reversesFiles else t.reversesRanks)
  transposes := s.transposes ^^ t.transposes

theorem onSquare_andThen (s t : Symmetry) (q : Square) :
    (s.andThen t).onSquare q = t.onSquare (s.onSquare q) := by
  rcases s with ⟨_ | _, _ | _, _ | _⟩ <;> rcases t with ⟨_ | _, _ | _, _ | _⟩ <;>
    simp [onSquare, andThen]

theorem onMask_andThen (s t : Symmetry) (m : Mask) :
    (s.andThen t).onMask m = t.onMask (s.onMask m) := by
  apply Mask.eq_of_contains
  intro u
  obtain ⟨q, rfl⟩ := (s.andThen t).onSquare_surjective u
  rw [contains_onMask, onSquare_andThen, contains_onMask, contains_onMask]

theorem onMove_andThen (s t : Symmetry) (m : Move) :
    (s.andThen t).onMove m = t.onMove (s.onMove m) := by
  cases m with
  | play q => exact congrArg Move.play (s.onSquare_andThen t q)
  | pass => rfl

@[simp] theorem onMove_inverse_onMove (s : Symmetry) (m : Move) :
    s.inverse.onMove (s.onMove m) = m := by
  cases m with
  | play q => exact congrArg Move.play (s.onSquare_inverse_onSquare q)
  | pass => rfl

theorem step?_onSquare_eq_some_iff {s : Symmetry} {d : Direction} {q r : Square} :
    Square.step? (s.onDirection d) (s.onSquare q) = some (s.onSquare r) ↔
      Square.step? d q = some r := by
  simp only [Square.step?_eq_some_iff]
  rcases s with ⟨_ | _, _ | _, _ | _⟩ <;>
    simp [onDirection, onSquare, Fin.val_rev] <;> omega

theorem step?_onSquare (s : Symmetry) (d : Direction) (q : Square) :
    Square.step? (s.onDirection d) (s.onSquare q) = (Square.step? d q).map s.onSquare := by
  apply Option.ext
  intro t
  obtain ⟨r, rfl⟩ := s.onSquare_surjective t
  rw [step?_onSquare_eq_some_iff, Option.map_eq_some_iff]
  simp [onSquare_inj]

/-- The image of a ray is the ray of the images. -/
theorem walk_onSquare (s : Symmetry) (d : Direction) (n : ℕ) (q : Square) :
    Square.walk (s.onDirection d) n (s.onSquare q) = (Square.walk d n q).map s.onSquare := by
  induction n generalizing q with
  | zero => rfl
  | succ n ih =>
    rw [Square.walk, Square.walk, step?_onSquare]
    cases Square.step? d q with
    | none => rfl
    | some r => simp [ih]

theorem closes_onMask (s : Symmetry) (own opposing : Mask) (path : List Square) :
    Mask.closes (s.onMask own) (s.onMask opposing) (path.map s.onSquare) =
      Mask.closes own opposing path := by
  induction path with
  | nil => rfl
  | cons q path ih => simp only [List.map_cons, Mask.closes, contains_onMask, ih]

/-- A disc captures in the image of a board the images of what it captures. -/
theorem flips_onMask (s : Symmetry) (q : Square) (own opposing : Mask) :
    Mask.flips (s.onSquare q) (s.onMask own) (s.onMask opposing) =
      s.onMask (Mask.flips q own opposing) := by
  apply Mask.eq_of_contains
  intro t
  obtain ⟨r, rfl⟩ := s.onSquare_surjective t
  rw [contains_onMask, Bool.eq_iff_iff, Mask.contains_flips, Mask.contains_flips,
    s.onDirection_surjective.exists]
  refine exists_congr fun d => ?_
  rw [Square.ray, walk_onSquare, closes_onMask, List.takeWhile_map]
  simp [Function.comp_def, onSquare_inj, Square.ray]

end Symmetry
end OthelloBook
