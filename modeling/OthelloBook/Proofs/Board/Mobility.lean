import OthelloBook.Board.Mask
import OthelloBook.Proofs.Board.Captures

/-!
# The flood finds the captures

Each of the four floods runs along an axis, both ways at once. The squares that it may pass are
those with both neighbours on the board, so that a shift between them never wraps. A square is
reached when it is opposing and a run from it is closed one way or the other, and the empty squares
just behind such runs are those on which a disc captures something.
-/
namespace OthelloBook.Mask

/-- A direction and a shift that go the same way, and the squares with both neighbours on the
board. -/
structure Axis (e : Direction) (distance : UInt64) (inside : Mask) : Prop where
  distance_lt : distance.toNat < 64
  offset : e.fileStep + 8 * e.rankStep = distance.toNat
  inside_iff : ∀ s, inside.contains s = true ↔
    (Square.step? e s).isSome = true ∧ (Square.step? e.opposite s).isSome = true

theorem axis_east : Axis .east 1 innerFiles := ⟨by decide, by decide, by decide +kernel⟩

theorem axis_south : Axis .south 8 innerRanks := ⟨by decide, by decide, by decide +kernel⟩

theorem axis_southWest : Axis .southWest 7 inner := ⟨by decide, by decide, by decide +kernel⟩

theorem axis_southEast : Axis .southEast 9 inner := ⟨by decide, by decide, by decide +kernel⟩

def Along (e d : Direction) : Prop := d = e ∨ d = e.opposite

theorem Along.opposite {e d : Direction} (h : Along e d) : Along e d.opposite := by
  rcases h with rfl | rfl
  · exact .inr rfl
  · exact .inl (Direction.opposite_opposite e)

theorem Along.eq_or_eq_opposite {e d d' : Direction} (h : Along e d) (h' : Along e d') :
    d' = d ∨ d' = d.opposite := by
  rcases h with rfl | rfl <;> rcases h' with rfl | rfl <;> simp

namespace Axis

variable {e : Direction} {distance : UInt64} {inside : Mask} (ax : Axis e distance inside)
include ax

theorem isSome_step? {d : Direction} (hd : Along e d) {s : Square}
    (hs : inside.contains s = true) : ∃ t, Square.step? d s = some t := by
  have h := (ax.inside_iff s).1 hs
  rw [Option.isSome_iff_exists, Option.isSome_iff_exists] at h
  rcases hd with rfl | rfl
  · exact h.1
  · exact h.2

theorem inside_of_step? {d : Direction} (hd : Along e d) {s t u : Square}
    (ht : Square.step? d.opposite s = some t) (hu : Square.step? d s = some u) :
    inside.contains s = true := by
  rw [ax.inside_iff]
  rcases hd with rfl | rfl
  · simp [ht, hu]
  · rw [Direction.opposite_opposite] at ht
    simp [ht, hu]

theorem val_of_step? {d : Direction} (hd : Along e d) {s t : Square}
    (h : Square.step? d s = some t) :
    s.val + distance.toNat = t.val ∨ t.val + distance.toNat = s.val := by
  have hv := Square.val_step? h
  have ho := ax.offset
  rcases hd with rfl | rfl
  · omega
  · rw [Direction.fileStep_opposite, Direction.rankStep_opposite] at hv
    omega

theorem step?_of_val {s t : Square} (hs : inside.contains s = true)
    (h : s.val + distance.toNat = t.val ∨ t.val + distance.toNat = s.val) :
    ∃ d, Along e d ∧ Square.step? d s = some t := by
  have ho := ax.offset
  rcases h with h | h
  · obtain ⟨u, hu⟩ := ax.isSome_step? (.inl rfl) hs
    have hv := Square.val_step? hu
    have hut : u = t := Fin.ext (by omega)
    exact ⟨e, .inl rfl, hut ▸ hu⟩
  · obtain ⟨u, hu⟩ := ax.isSome_step? (.inr rfl) hs
    have hv := Square.val_step? hu
    rw [Direction.fileStep_opposite, Direction.rankStep_opposite] at hv
    have hut : u = t := Fin.ext (by omega)
    exact ⟨e.opposite, .inr rfl, hut ▸ hu⟩

/-- Next to a square inside, the shifts are the steps along the axis. -/
theorem contains_spread {m : Mask} {s : Square}
    (h : ∀ t, m.contains t = true → inside.contains s = true ∨ inside.contains t = true) :
    (spread distance m).contains s = true ↔
      ∃ d t, Along e d ∧ Square.step? d s = some t ∧ m.contains t = true := by
  rw [spread, contains_or, Bool.or_eq_true, contains_shiftLeft m ax.distance_lt,
    contains_shiftRight m ax.distance_lt, ← exists_or]
  constructor
  · rintro ⟨t, ht⟩
    have hm : m.contains t = true := ht.elim (·.2) (·.2)
    have hv : s.val + distance.toNat = t.val ∨ t.val + distance.toNat = s.val :=
      ht.elim (fun h => .inr h.1) (fun h => .inl h.1)
    rcases h t hm with hs | ht
    · obtain ⟨d, hd, hstep⟩ := ax.step?_of_val hs hv
      exact ⟨d, t, hd, hstep, hm⟩
    · obtain ⟨d, hd, hstep⟩ := ax.step?_of_val ht hv.symm
      exact ⟨d.opposite, t, hd.opposite, Square.step?_opposite.2 hstep, hm⟩
  · rintro ⟨d, t, hd, hstep, hm⟩
    rcases ax.val_of_step? hd hstep with hv | hv
    · exact ⟨t, .inr ⟨hv, hm⟩⟩
    · exact ⟨t, .inl ⟨hv, hm⟩⟩

variable {own opposing : Mask}

/-- The flood reaches the opposing squares inside from which a run of at most `n + 1` discs is
closed one way or the other. -/
theorem contains_flood (hdisj : own &&& opposing = 0) (n : ℕ) (s : Square) :
    (flood (opposing &&& inside) distance n own).contains s = true ↔
      opposing.contains s = true ∧ inside.contains s = true ∧
        ∃ d, Along e d ∧ closes own opposing (Square.walk d (n + 1) s) = true := by
  induction n generalizing s with
  | zero =>
    rw [flood, contains_and, contains_and, Bool.and_eq_true, Bool.and_eq_true, and_comm, and_assoc]
    refine and_congr_right fun _ => and_congr_right fun hin => ?_
    rw [ax.contains_spread fun t _ => .inl hin]
    refine exists_congr fun d => ?_
    rw [exists_and_left, closes_walk_succ]
    refine and_congr_right fun _ => exists_congr fun t => and_congr_right fun _ => ?_
    rw [show Square.walk d 0 t = [] from rfl, closes]
    have hown := contains_of_disjoint (a := opposing) (b := own) (by rwa [UInt64.and_comm]) (s := t)
    tauto
  | succ n ih =>
    rw [flood, contains_or, contains_and, contains_and, Bool.or_eq_true, Bool.and_eq_true,
      Bool.and_eq_true, ih]
    constructor
    · rintro (⟨ho, hin, d, hd, hc⟩ | ⟨hs, ho, hin⟩)
      · exact ⟨ho, hin, d, hd, closes_walk_mono hc⟩
      · obtain ⟨d, t, hd, hstep, ht⟩ := (ax.contains_spread fun t _ => .inl hin).1 hs
        obtain ⟨hto, -, d', hd', hc⟩ := (ih t).1 ht
        -- Going on in the same direction makes the run longer, turning back makes it shorter.
        rcases hd.eq_or_eq_opposite hd' with rfl | rfl
        · exact ⟨ho, hin, d', hd, closes_walk_succ.2 ⟨t, hstep, .inl ⟨hto, hc⟩⟩⟩
        · obtain ⟨u, hu, hcu⟩ := closes_walk_succ.1 hc
          rw [Square.step?_opposite.2 hstep, Option.some.injEq] at hu
          subst hu
          rcases hcu with ⟨-, hcs⟩ | ⟨hno, -⟩
          · exact ⟨ho, hin, d.opposite, hd', closes_walk_mono (closes_walk_mono hcs)⟩
          · exact absurd (ho.symm.trans hno) (by decide)
    · rintro ⟨ho, hin, d, hd, hc⟩
      obtain ⟨t, hstep, ⟨hto, hct⟩ | ht⟩ := closes_walk_succ.1 hc
      · right
        refine ⟨(ax.contains_spread fun t _ => .inl hin).2 ⟨d, t, hd, hstep, ?_⟩, ho, hin⟩
        obtain ⟨u, hu, -⟩ := closes_walk_succ.1 hct
        exact (ih t).2
          ⟨hto, ax.inside_of_step? hd (Square.step?_opposite.2 hstep) hu, d, hd, hct⟩
      · left
        exact ⟨ho, hin, d, hd, closes_walk_succ.2 ⟨t, hstep, .inr ht⟩⟩

/-- The empty squares behind the runs are those on which a disc captures along the axis. -/
theorem contains_behindRuns (hdisj : own &&& opposing = 0) {s : Square}
    (hown : own.contains s = false) (hopp : opposing.contains s = false) :
    (behindRuns own (opposing &&& inside) distance).contains s = true ↔
      ∃ d, Along e d ∧ Brackets own opposing s d := by
  have hflood (t : Square) := ax.contains_flood hdisj 5 t
  rw [behindRuns, ax.contains_spread fun t ht => .inr ((hflood t).1 ht).2.1]
  refine exists_congr fun d => ?_
  simp only [exists_and_left, Brackets, hflood]
  refine and_congr_right fun hd => exists_congr fun t => and_congr_right fun hstep =>
    and_congr_right fun ho => ?_
  have hback := Square.step?_opposite.2 hstep
  constructor
  · rintro ⟨-, d', hd', hc⟩
    rcases hd.eq_or_eq_opposite hd' with rfl | rfl
    · exact hc
    · obtain ⟨u, hu, hcu⟩ := closes_walk_succ.1 hc
      rw [hback, Option.some.injEq] at hu
      subst hu
      simp [hown, hopp] at hcu
  · intro hc
    obtain ⟨u, hu, -⟩ := closes_walk_succ.1 hc
    exact ⟨ax.inside_of_step? hd hback hu, d, hd, hc⟩

end Axis

/-- A square is among the moves exactly when it is empty and a disc on it captures something. -/
theorem contains_moves {own opposing : Mask} (hdisj : own &&& opposing = 0) (s : Square) :
    (moves own opposing).contains s = true ↔
      own.contains s = false ∧ opposing.contains s = false ∧ flips s own opposing ≠ 0 := by
  by_cases hown : own.contains s = true
  · simp [moves, hown]
  by_cases hopp : opposing.contains s = true
  · simp [moves, hopp]
  rw [Bool.not_eq_true] at hown hopp
  simp only [moves, contains_or, contains_and, contains_not, hown, hopp, Bool.or_false,
    Bool.not_false, Bool.and_true, Bool.or_eq_true, true_and, flips_ne_zero_iff,
    axis_southWest.contains_behindRuns hdisj hown hopp,
    axis_southEast.contains_behindRuns hdisj hown hopp,
    axis_east.contains_behindRuns hdisj hown hopp,
    axis_south.contains_behindRuns hdisj hown hopp]
  constructor
  · rintro (((⟨d, -, h⟩ | ⟨d, -, h⟩) | ⟨d, -, h⟩) | ⟨d, -, h⟩) <;> exact ⟨d, h⟩
  · rintro ⟨d, h⟩
    cases d with
    | southWest => exact .inl (.inl (.inl ⟨_, .inl rfl, h⟩))
    | northEast => exact .inl (.inl (.inl ⟨_, .inr rfl, h⟩))
    | southEast => exact .inl (.inl (.inr ⟨_, .inl rfl, h⟩))
    | northWest => exact .inl (.inl (.inr ⟨_, .inr rfl, h⟩))
    | east => exact .inl (.inr ⟨_, .inl rfl, h⟩)
    | west => exact .inl (.inr ⟨_, .inr rfl, h⟩)
    | south => exact .inr ⟨_, .inl rfl, h⟩
    | north => exact .inr ⟨_, .inr rfl, h⟩

end OthelloBook.Mask
