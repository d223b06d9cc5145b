import Mathlib.Data.List.TakeWhile
import OthelloBook.Board.Mask
import OthelloBook.Proofs.Board.Geometry
import OthelloBook.Proofs.Board.Sets

/-!
# Runs and what is captured

A path is closed when the run of opposing discs at its beginning ends in a disc of the mover. The
discs captured along a path are those of this run, and a disc placed on a square captures
something exactly when one of its rays begins with an opposing disc and is closed.
-/
namespace OthelloBook

namespace Mask

/-- Whether the first square of a path that is not opposing has a disc of `own`. -/
def closes (own opposing : Mask) : List Square → Bool
  | [] => false
  | s :: path => if opposing.contains s then closes own opposing path else own.contains s

variable {own opposing : Mask}

theorem contains_captured {run : Mask} {path : List Square} {t : Square} :
    (captured own opposing run path).contains t = true ↔
      closes own opposing path = true ∧
        (run.contains t = true ∨ t ∈ path.takeWhile opposing.contains) := by
  induction path generalizing run with
  | nil => simp [captured, closes]
  | cons s path ih =>
    by_cases ho : opposing.contains s = true
    · simp [captured, closes, ho, ih, or_assoc, eq_comm (a := t)]
    · by_cases hm : own.contains s = true <;> simp [captured, closes, ho, hm]

theorem contains_foldl_or {α : Type*} (f : α → Mask) (xs : List α) (acc : Mask) (t : Square) :
    (xs.foldl (fun acc x => acc ||| f x) acc).contains t =
      (acc.contains t || xs.any fun x => (f x).contains t) := by
  induction xs generalizing acc with
  | nil => simp
  | cons x xs ih => simp [ih, Bool.or_assoc]

/-- The captured discs are those of the runs along closed rays. -/
theorem contains_flips {s t : Square} :
    (flips s own opposing).contains t = true ↔
      ∃ d, closes own opposing (s.ray d) = true ∧ t ∈ (s.ray d).takeWhile opposing.contains := by
  simp [flips, contains_foldl_or, contains_captured, Direction.mem_all]

theorem opposing_of_flips {own opposing : Mask} {s t : Square}
    (h : (flips s own opposing).contains t = true) : opposing.contains t = true := by
  obtain ⟨d, -, ht⟩ := contains_flips.1 h
  exact List.mem_takeWhile_imp ht

theorem closes_walk_succ {d : Direction} {n : ℕ} {s : Square} :
    closes own opposing (Square.walk d (n + 1) s) = true ↔
      ∃ t, Square.step? d s = some t ∧
        (opposing.contains t = true ∧ closes own opposing (Square.walk d n t) = true ∨
          opposing.contains t = false ∧ own.contains t = true) := by
  cases h : Square.step? d s with
  | none => simp [Square.walk, h, closes]
  | some t => cases ho : opposing.contains t <;> simp [Square.walk, h, closes, ho]

theorem closes_walk_mono {d : Direction} {n : ℕ} {s : Square}
    (h : closes own opposing (Square.walk d n s) = true) :
    closes own opposing (Square.walk d (n + 1) s) = true := by
  induction n generalizing s with
  | zero => simp [Square.walk, closes] at h
  | succ n ih =>
    obtain ⟨t, hs, ht⟩ := closes_walk_succ.1 h
    exact closes_walk_succ.2 ⟨t, hs, ht.imp_left fun ⟨ho, hc⟩ => ⟨ho, ih hc⟩⟩

/-- A ray captures when it begins with an opposing disc from which it is closed. -/
def Brackets (own opposing : Mask) (s : Square) (d : Direction) : Prop :=
  ∃ t, Square.step? d s = some t ∧ opposing.contains t = true ∧
    closes own opposing (Square.walk d 6 t) = true

theorem flips_ne_zero_iff {s : Square} :
    flips s own opposing ≠ 0 ↔ ∃ d, Brackets own opposing s d := by
  rw [ne_zero_iff]
  simp only [contains_flips]
  rw [exists_comm]
  refine exists_congr fun d => ?_
  cases hs : Square.step? d s with
  | none => simp [Square.ray, Square.walk, hs, closes, Brackets]
  | some t =>
    cases ho : opposing.contains t with
    | false => simp [Square.ray, Square.walk, hs, closes, ho, Brackets]
    | true => simp [Square.ray, Square.walk, hs, closes, ho, Brackets]

end Mask

/-! ## Rays in coordinates

A ray is walked by changing both coordinates by the same amounts at each step, so that its squares
are those whose coordinates stay on the board. In these terms a disc captures the opposing discs that
lie on a ray before a disc of the mover, with nothing but opposing discs between. -/

def Direction.step (d : Direction) : ℤ × ℤ := (d.fileStep, d.rankStep)

/-- What one step along a ray changes: each coordinate by at most one, and not neither. -/
def IsRayStep (δ : ℤ × ℤ) : Prop := δ ≠ (0, 0) ∧ |δ.1| ≤ 1 ∧ |δ.2| ≤ 1

/-- The eight directions are all ways to step along a ray. -/
theorem exists_step_eq_iff {δ : ℤ × ℤ} : (∃ d : Direction, d.step = δ) ↔ IsRayStep δ := by
  constructor
  · rintro ⟨d, rfl⟩
    cases d <;> simp [IsRayStep, Direction.step, Direction.fileStep, Direction.rankStep]
  · obtain ⟨x, y⟩ := δ
    rintro ⟨hne, hx, hy⟩
    simp only [Int.abs_le_one_iff] at hx hy
    rcases hx with rfl | rfl | rfl <;> rcases hy with rfl | rfl | rfl
    · exact absurd rfl hne
    · exact ⟨.south, rfl⟩
    · exact ⟨.north, rfl⟩
    · exact ⟨.east, rfl⟩
    · exact ⟨.southEast, rfl⟩
    · exact ⟨.northEast, rfl⟩
    · exact ⟨.west, rfl⟩
    · exact ⟨.southWest, rfl⟩
    · exact ⟨.northWest, rfl⟩

namespace Square

/-- The square `t` has the coordinates that are reached from `s` by `k` steps. -/
def IsStep (δ : ℤ × ℤ) (k : ℕ) (s t : Square) : Prop :=
  (t.file.val : ℤ) = s.file.val + k * δ.1 ∧ (t.rank.val : ℤ) = s.rank.val + k * δ.2

variable {d : Direction} {s t : Square} {k : ℕ}

/-- A coordinate that is on the board after more steps is on it after the first one. -/
theorem exists_coordinate {δ : ℤ} (hδ : |δ| ≤ 1) {c c' : Fin 8}
    (h : (c'.val : ℤ) = c.val + (k + 1) * δ) : ∃ b : Fin 8, (b.val : ℤ) = c.val + δ := by
  have hrange : 0 ≤ c.val + δ ∧ c.val + δ < 8 := by
    rcases Int.abs_le_one_iff.1 hδ with rfl | rfl | rfl <;> omega
  exact ⟨⟨(c.val + δ).toNat, by omega⟩, Int.toNat_of_nonneg hrange.1⟩

theorem isStep_succ_iff :
    IsStep d.step (k + 1) s t ↔ ∃ u, step? d s = some u ∧ IsStep d.step k u t := by
  have hstep : IsRayStep d.step := exists_step_eq_iff.1 ⟨d, rfl⟩
  constructor
  · rintro ⟨hf, hr⟩
    push_cast at hf hr
    obtain ⟨f, hf'⟩ := exists_coordinate hstep.2.1 hf
    obtain ⟨r, hr'⟩ := exists_coordinate hstep.2.2 hr
    refine ⟨ofFileRank f r, step?_eq_some_iff.2 ⟨?_, ?_⟩, ?_, ?_⟩
    · rw [file_ofFileRank, hf', Direction.step]
    · rw [rank_ofFileRank, hr', Direction.step]
    · rw [file_ofFileRank, hf', hf]
      ring
    · rw [rank_ofFileRank, hr', hr]
      ring
  · rintro ⟨u, hu, hf, hr⟩
    obtain ⟨hf', hr'⟩ := step?_eq_some_iff.1 hu
    refine ⟨?_, ?_⟩
    · rw [hf, hf', Direction.step]
      push_cast
      ring
    · rw [hr, hr', Direction.step]
      push_cast
      ring

/-- A walk meets the squares that are reached by one step, two steps and so on. -/
theorem getElem?_walk {n : ℕ} :
    (walk d n s)[k]? = some t ↔ k < n ∧ IsStep d.step (k + 1) s t := by
  induction n generalizing s k with
  | zero => simp [walk]
  | succ n ih =>
    rw [isStep_succ_iff]
    cases hs : step? d s with
    | none => simp [walk, hs]
    | some u =>
      cases k with
      | zero =>
        have hzero : IsStep d.step 0 u t ↔ u = t := by
          simp [IsStep, Fin.ext_iff, val_eq]
          omega
        simp [walk, hs, hzero]
      | succ k => simp [walk, hs, ih]

/-- A ray is left by no step before the edge. -/
theorem getElem?_ray : (ray d s)[k]? = some t ↔ IsStep d.step (k + 1) s t := by
  rw [ray, getElem?_walk, and_iff_right_iff_imp]
  rintro ⟨hf, hr⟩
  cases d <;> simp [Direction.step, Direction.fileStep, Direction.rankStep] at hf hr <;> omega

end Square

namespace Mask

variable {own opposing : Mask}

/-- A path begins with `m` opposing discs, and a disc of `own` comes next. -/
def ClosesAt (own opposing : Mask) (m : ℕ) (path : List Square) : Prop :=
  (∀ j < m, ∃ u, path[j]? = some u ∧ opposing.contains u = true) ∧
    ∃ u, path[m]? = some u ∧ opposing.contains u = false ∧ own.contains u = true

theorem closesAt_zero_cons {s : Square} {path : List Square} :
    ClosesAt own opposing 0 (s :: path) ↔ opposing.contains s = false ∧ own.contains s = true := by
  simp [ClosesAt]

theorem closesAt_succ_cons {m : ℕ} {s : Square} {path : List Square} :
    ClosesAt own opposing (m + 1) (s :: path) ↔
      opposing.contains s = true ∧ ClosesAt own opposing m path := by
  rw [ClosesAt, ClosesAt, Nat.forall_lt_succ_left]
  simp [and_assoc]

theorem closes_iff {path : List Square} :
    closes own opposing path = true ↔ ∃ m, ClosesAt own opposing m path := by
  induction path with
  | nil => simp [closes, ClosesAt]
  | cons s path ih =>
    rw [closes, ← Nat.or_exists_add_one, closesAt_zero_cons]
    simp only [closesAt_succ_cons, exists_and_left, ← ih]
    cases opposing.contains s <;> simp

theorem ClosesAt.takeWhile_eq {m : ℕ} {path : List Square} (h : ClosesAt own opposing m path) :
    path.takeWhile opposing.contains = path.take m := by
  induction path generalizing m with
  | nil => simp
  | cons s path ih =>
    cases m with
    | zero =>
      obtain ⟨u, hu, hopposing, -⟩ := h.2
      obtain rfl : s = u := by simpa using hu
      simp [hopposing]
    | succ m =>
      obtain ⟨hopposing, hrest⟩ := closesAt_succ_cons.1 h
      rw [List.takeWhile_cons_of_pos hopposing, ih hrest, List.take_succ_cons]

/-- The run at the beginning of a closed path is all that comes before its end. -/
theorem ClosesAt.mem_takeWhile_iff {m : ℕ} {path : List Square} (h : ClosesAt own opposing m path)
    {t : Square} : t ∈ path.takeWhile opposing.contains ↔ ∃ k < m, path[k]? = some t := by
  simp only [h.takeWhile_eq, List.mem_iff_getElem?, List.getElem?_take, Option.ite_none_right_eq_some]

/-- A ray is closed in the `m`-th square: all squares before it are opposing, and it has a disc of
`own`. -/
def ClosesRay (own opposing : Mask) (s : Square) (δ : ℤ × ℤ) (m : ℕ) : Prop :=
  (∀ j, 1 ≤ j → j < m → ∃ u, s.IsStep δ j u ∧ opposing.contains u = true) ∧
    ∃ u, s.IsStep δ m u ∧ opposing.contains u = false ∧ own.contains u = true

theorem closesAt_ray {d : Direction} {s : Square} {m : ℕ} :
    ClosesAt own opposing m (s.ray d) ↔ ClosesRay own opposing s d.step (m + 1) := by
  simp only [ClosesAt, ClosesRay, Square.getElem?_ray]
  refine and_congr_left fun _ => ⟨fun h j hj hlt => ?_, fun h j hlt => ?_⟩
  · obtain ⟨j, rfl⟩ := Nat.exists_eq_add_of_le' hj
    exact h j (Nat.lt_of_succ_lt_succ hlt)
  · exact h (j + 1) (Nat.le_add_left 1 j) (Nat.succ_lt_succ hlt)

/-- A disc captures what lies on one of the eight rays before a disc of its own colour, if there are
only opposing discs between. -/
theorem contains_flips_iff {s t : Square} :
    (flips s own opposing).contains t = true ↔
      ∃ δ m, IsRayStep δ ∧ ClosesRay own opposing s δ m ∧
        ∃ k, 1 ≤ k ∧ k < m ∧ s.IsStep δ k t := by
  rw [contains_flips]
  constructor
  · rintro ⟨d, hcloses, ht⟩
    obtain ⟨m, hm⟩ := closes_iff.1 hcloses
    obtain ⟨k, hkm, hk⟩ := hm.mem_takeWhile_iff.1 ht
    exact ⟨d.step, m + 1, exists_step_eq_iff.1 ⟨d, rfl⟩, closesAt_ray.1 hm, k + 1,
      Nat.le_add_left 1 k, Nat.succ_lt_succ hkm, Square.getElem?_ray.1 hk⟩
  · rintro ⟨δ, m, hδ, hm, k, hk, hkm, ht⟩
    obtain ⟨d, rfl⟩ := exists_step_eq_iff.2 hδ
    obtain ⟨m, rfl⟩ := Nat.exists_eq_add_of_le' (hk.trans hkm.le)
    obtain ⟨k, rfl⟩ := Nat.exists_eq_add_of_le' hk
    rw [← closesAt_ray] at hm
    exact ⟨d, closes_iff.2 ⟨m, hm⟩, hm.mem_takeWhile_iff.2
      ⟨k, Nat.lt_of_succ_lt_succ hkm, Square.getElem?_ray.2 ht⟩⟩

end Mask

end OthelloBook
