import OthelloBook.Position.Play
import OthelloBook.Proofs.Position.Equivariance

/-!
# The count of games is the number of leaves

The count replaces the last layer of the game tree by the number of legal squares, and is the number
of leaves up to the size of a word. The leaves do not depend on the orientation of the board, as the
children of an image are the images of the children in some other order, nor on whose turn it is
where a pass is the only move or the game is over.
-/
namespace OthelloBook

theorem Symmetry.squares_onMask_perm (s : Symmetry) (m : Mask) :
    (s.onMask m).squares.Perm (m.squares.map s.onSquare) := by
  have hinj : Function.Injective s.onSquare := fun q r h => Symmetry.onSquare_inj.1 h
  have hnodup (m : Mask) : m.squares.Nodup := m.pairwise_squares.imp ne_of_lt
  refine (List.perm_ext_iff_of_nodup (hnodup _) ((hnodup m).map hinj)).2 fun t => ?_
  obtain ⟨q, rfl⟩ := s.onSquare_surjective t
  rw [Mask.mem_squares, contains_onMask, List.mem_map_of_injective hinj, Mask.mem_squares]

theorem toUInt64_sum (ns : List ℕ) :
    ns.sum.toUInt64 = (ns.map Nat.toUInt64).foldr (· + ·) 0 := by
  induction ns with
  | nil => rfl
  | cons n ns ih =>
    rw [List.sum_cons, List.map_cons, List.foldr_cons, ← ih]
    exact UInt64.ofNat_add n ns.sum

namespace Position

/-- The plain number of leaves of the game tree, without the shortcut for the last move. -/
def leaves (p : Position) : Nat → Nat
  | 0 => 1
  | n + 1 =>
    if p.hasMoves then (p.children.map fun child => child.2.leaves n).sum
    else if p.pass.hasMoves then p.pass.leaves (n + 1)
    else 1
termination_by n => (n, p.blocked)
decreasing_by
  · exact Prod.Lex.left _ _ (Nat.lt_succ_self n)
  · exact Prod.Lex.right _ (blocked_pass_lt ‹_› ‹_›)

variable {p : Position} {n : ℕ}

theorem leaves_succ (h : p.hasMoves = true) :
    p.leaves (n + 1) = (p.children.map fun child => child.2.leaves n).sum := by
  rw [leaves, if_pos h]

theorem leaves_succ_of_pass (h : p.hasMoves = false) (hpass : p.pass.hasMoves = true) :
    p.leaves (n + 1) = p.pass.leaves (n + 1) := by
  rw [leaves, if_neg (by simp [h]), if_pos hpass]

theorem leaves_succ_of_gameEnd (h : p.hasMoves = false) (hpass : p.pass.hasMoves = false) :
    p.leaves (n + 1) = 1 := by
  rw [leaves, if_neg (by simp [h]), if_neg (by simp [hpass])]

/-- The last layer of the tree has a leaf for each legal square. -/
theorem leaves_one (h : p.hasMoves = true) : p.leaves 1 = p.moves.count := by
  rw [leaves_succ h, ← Mask.length_squares, ← p.map_fst_children, List.length_map]
  simp [leaves]

/-- The shortcut for the last move does not change the count. -/
theorem perft_eq_leaves (p : Position) (depth : ℕ) :
    p.perft depth = (p.leaves (max depth 1)).toUInt64 := by
  induction p, depth using perft.induct with
  | case1 p depth h hdepth =>
    rw [perft, if_pos h, if_pos hdepth, max_eq_right hdepth, leaves_one h]
  | case2 p depth h hdepth ih =>
    obtain ⟨n, rfl⟩ : ∃ n, depth = n + 2 := ⟨depth - 2, by omega⟩
    rw [perft, if_pos h, if_neg hdepth, max_eq_left (by omega), leaves_succ h, toUInt64_sum,
      List.map_map]
    congr 1
    exact List.map_congr_left fun child _ => by simpa using ih child
  | case3 p depth h hpass ih =>
    obtain ⟨n, hn⟩ : ∃ n, max depth 1 = n + 1 := ⟨max depth 1 - 1, by omega⟩
    rw [hn] at ih ⊢
    -- The pass counts at the same depth, and so do the leaves.
    rw [perft, if_neg h, if_pos hpass, ih, leaves_succ_of_pass (by simpa using h) hpass]
  | case4 p depth h hpass =>
    obtain ⟨n, hn⟩ : ∃ n, max depth 1 = n + 1 := ⟨max depth 1 - 1, by omega⟩
    rw [perft, if_neg h, if_neg hpass, hn,
      leaves_succ_of_gameEnd (by simpa using h) (by simpa using hpass)]
    rfl

/-- The children of an image are the images of the children, in some order. -/
theorem children_rotate_perm (p : Position) (s : Symmetry) :
    (p.rotate s).children.Perm (p.children.map fun child => (s.onSquare child.1, child.2.rotate s)) := by
  rw [children, children, moves_rotate, List.map_map]
  refine ((s.squares_onMask_perm p.moves).map _).trans ?_
  rw [List.map_map]
  refine .of_eq (List.map_congr_left fun q _ => ?_)
  exact congrArg (Prod.mk _) (p.place_rotate s q)

theorem leaves_rotate (p : Position) (s : Symmetry) (n : ℕ) : (p.rotate s).leaves n = p.leaves n := by
  induction p, n using leaves.induct with
  | case1 p => rw [leaves, leaves]
  | case2 p n h ih =>
    -- The sum goes over the images of the children in some other order.
    rw [leaves_succ ((p.hasMoves_rotate s).trans h), leaves_succ h,
      ((p.children_rotate_perm s).map _).sum_eq, List.map_map]
    congr 1
    exact List.map_congr_left fun child _ => ih child
  | case3 p n h hpass ih =>
    have h : p.hasMoves = false := by simpa using h
    rw [leaves_succ_of_pass ((p.hasMoves_rotate s).trans h), pass_rotate, ih,
      leaves_succ_of_pass h hpass]
    rw [pass_rotate, hasMoves_rotate, hpass]
  | case4 p n h hpass =>
    have h : p.hasMoves = false := by simpa using h
    have hpass : p.pass.hasMoves = false := by simpa using hpass
    rw [leaves_succ_of_gameEnd h hpass, leaves_succ_of_gameEnd ((p.hasMoves_rotate s).trans h)]
    rw [pass_rotate, hasMoves_rotate, hpass]

theorem leaves_pass (h : p.hasMoves = false) (n : ℕ) : p.pass.leaves n = p.leaves n := by
  cases n with
  | zero => rw [leaves, leaves]
  | succ n =>
    cases hpass : p.pass.hasMoves with
    | true => rw [leaves_succ_of_pass h hpass]
    | false => rw [leaves_succ_of_gameEnd h hpass, leaves_succ_of_gameEnd hpass h]

/-- The count to any depth is the number of leaves of the game tree, modulo the size of a word, where
at least one move is played. It is the same for all images of a position, and for both sides where the
side to move has no legal square. -/
theorem perft_counts_leaves (p : Position) (depth : ℕ) :
    (p.perft depth).toNat = p.leaves (max depth 1) % 2 ^ 64 ∧
    (∀ s, (p.rotate s).perft depth = p.perft depth) ∧
    (p.hasMoves = false → p.pass.perft depth = p.perft depth) := by
  refine ⟨?_, fun s => ?_, fun h => ?_⟩
  · rw [perft_eq_leaves]
    exact UInt64.toNat_ofNat
  · rw [perft_eq_leaves, leaves_rotate, perft_eq_leaves]
  · rw [perft_eq_leaves, leaves_pass h, perft_eq_leaves]

/-- A side that has to pass lets the other one place a disc in the corner, and then the game is over:
one leaf, however deep the count goes. -/
theorem perft_counts_leaves_forced_pass :
    ∃ p : Position, p.hasMoves = false ∧ p.pass.hasMoves = true ∧
      p.pass.perft 2 = p.perft 2 ∧ (p.perft 2).toNat = 1 := by
  let p : Position := ⟨0x02, 0xfc, by decide⟩
  have h : p.hasMoves = false := by decide +kernel
  have hpass : p.pass.hasMoves = true := by decide +kernel
  have hchildren : p.pass.children = [(0, p.pass.place 0)] := by decide +kernel
  have hover : (p.pass.place 0).leaves 1 = 1 :=
    leaves_succ_of_gameEnd (by decide +kernel) (by decide +kernel)
  have hleaves : p.leaves 2 = 1 := by
    rw [leaves_succ_of_pass h hpass, leaves_succ hpass, hchildren]
    simpa using hover
  obtain ⟨hcount, -, hsides⟩ := p.perft_counts_leaves 2
  refine ⟨p, h, hpass, hsides h, ?_⟩
  rw [hcount, max_eq_left (by decide), hleaves]
  rfl

end Position
end OthelloBook
