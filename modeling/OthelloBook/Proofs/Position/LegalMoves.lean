import OthelloBook.Position.Play
import OthelloBook.Proofs.Board.Mobility

/-!
# Legal moves

The squares found by the flood are exactly the squares on which the rule of the game allows a
disc, and the children of a position are the results of these moves.
-/
namespace OthelloBook.Position

@[simp] theorem contains_empty (p : Position) (s : Square) :
    p.empty.contains s = (!p.own.contains s && !p.opposing.contains s) := by
  simp [empty]

theorem contains_moves {p : Position} {s : Square} :
    p.moves.contains s = true ↔
      p.empty.contains s = true ∧ Mask.flips s p.own p.opposing ≠ 0 := by
  rw [moves, Mask.contains_moves p.disjoint, contains_empty, Bool.and_eq_true,
    Bool.not_eq_true', Bool.not_eq_true', and_assoc]

theorem hasMoves_eq_false_iff {p : Position} : p.hasMoves = false ↔ p.moves = 0 := by
  simp [hasMoves]

theorem after?_play (p : Position) (s : Square) :
    p.after? (.play s) = if p.moves.contains s = true then some (p.place s) else none := by
  simp only [after?, contains_moves, Bool.and_eq_true, bne_iff_ne]

theorem apply_eq_ok_iff {p q : Position} {m : Move} : p.apply m = .ok q ↔ p.after? m = some q := by
  rw [apply]
  cases p.after? m <;> simp

theorem apply_play_eq_ok_iff {p q : Position} {s : Square} :
    p.apply (.play s) = .ok q ↔ p.moves.contains s = true ∧ p.place s = q := by
  rw [apply_eq_ok_iff, after?_play]
  split <;> simp_all

theorem apply_pass_eq_ok_iff {p q : Position} :
    p.apply .pass = .ok q ↔ p.moves = 0 ∧ p.pass = q := by
  rw [apply_eq_ok_iff, after?, ← hasMoves_eq_false_iff]
  split <;> simp_all

theorem mem_children {p q : Position} {s : Square} :
    (s, q) ∈ p.children ↔ p.moves.contains s = true ∧ p.place s = q := by
  simp [children, Mask.mem_squares]

theorem map_fst_children (p : Position) : p.children.map Prod.fst = p.moves.squares := by
  rw [children, List.map_map]
  exact List.map_id _

/-- The flood and the rays agree on all disjoint pairs of masks. So a disc may be placed exactly on
the squares of the moves and a pass is allowed exactly without any, and the children are the results
of the legal squares, once each and in ascending order. -/
theorem moves_agree_with_apply_and_children :
    (∀ own opposing : Mask, own &&& opposing = 0 → ∀ s,
      (Mask.moves own opposing).contains s = true ↔
        (own ||| opposing).contains s = false ∧ Mask.flips s own opposing ≠ 0) ∧
    ∀ p : Position,
      (∀ s, (∃ q, p.apply (.play s) = .ok q) ↔ p.moves.contains s = true) ∧
      ((∃ q, p.apply .pass = .ok q) ↔ p.moves = 0) ∧
      (∀ s q, (s, q) ∈ p.children ↔ p.apply (.play s) = .ok q) ∧
      (p.children.map Prod.fst).Pairwise (· < ·) := by
  refine ⟨fun own opposing hdisj s => ?_, fun p => ⟨fun s => ?_, ?_, fun s q => ?_, ?_⟩⟩
  · rw [Mask.contains_moves hdisj, Mask.contains_or, Bool.or_eq_false_iff, and_assoc]
  · simp [apply_play_eq_ok_iff]
  · simp [apply_pass_eq_ok_iff]
  · rw [mem_children, apply_play_eq_ok_iff]
  · rw [map_fst_children]
    exact p.moves.pairwise_squares

/-- A run of six discs along the first rank, from the mover's disc on `a1` to the empty `h1`. -/
theorem moves_agree_with_apply_and_children_longest_run :
    (0x01 : Mask) &&& 0x7e = 0 ∧
      ((Mask.moves 0x01 0x7e).contains 7 = true ↔
        ((0x01 : Mask) ||| 0x7e).contains 7 = false ∧ Mask.flips 7 0x01 0x7e ≠ 0) ∧
      (Mask.moves 0x01 0x7e).contains 7 = true :=
  ⟨by decide, moves_agree_with_apply_and_children.1 0x01 0x7e (by decide) 7, by decide⟩

end OthelloBook.Position
