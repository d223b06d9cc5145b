import OthelloBook.Proofs.Board.Captures
import OthelloBook.Proofs.Position.Games

/-!
# Placing discs

A disc that is placed and those that it captures go over to the mover, and the other side keeps all
its other discs. Each placement takes one of the empty squares, and a pass takes none, so that no
sequence of moves has more placements than there are empty squares.
-/
namespace OthelloBook

def Move.isPlay : Move → Bool
  | .play _ => true
  | .pass => false

namespace Position

variable {p q : Position} {s : Square}

/-- Of the other side's discs a placement takes exactly those that are captured: the square is empty,
and the mover's discs are not among them. -/
theorem own_place (h : p.moves.contains s = true) :
    (p.place s).own = p.opposing &&& ~~~Mask.flips s p.own p.opposing := by
  have hempty := (contains_moves.1 h).1
  rw [contains_empty, Bool.and_eq_true, Bool.not_eq_true', Bool.not_eq_true'] at hempty
  apply Mask.eq_of_contains
  intro t
  simp only [place, claimed, Mask.contains_and, Mask.contains_not, Mask.contains_or,
    Mask.contains_single]
  cases hopposing : p.opposing.contains t with
  | false => simp
  | true =>
    have hown := Mask.contains_of_disjoint p.disjoint hopposing
    have hne : s ≠ t := by
      rintro rfl
      exact absurd (hopposing.symm.trans hempty.2) (by decide)
    simp [hown, hne]

theorem discCount_le (p : Position) : p.discCount ≤ 64 := by
  rw [discCount_eq_count]
  exact Mask.count_le _

/-- A sequence of moves adds one disc for each placement. -/
theorem discCount_applyAll {ms : List Move} (h : p.applyAll ms = .ok q) :
    q.discCount = p.discCount + ms.countP Move.isPlay := by
  induction ms generalizing p with
  | nil =>
    obtain rfl := Except.ok.inj h
    rfl
  | cons m ms ih =>
    rw [applyAll] at h
    cases hm : p.apply m with
    | error e => simp [hm] at h
    | ok r =>
      rw [hm] at h
      have hrest := ih h
      cases m with
      | play s =>
        obtain ⟨hs, rfl⟩ := apply_play_eq_ok_iff.1 hm
        rw [hrest, discCount_place hs, List.countP_cons_of_pos rfl]
        omega
      | pass =>
        obtain ⟨-, rfl⟩ := apply_pass_eq_ok_iff.1 hm
        rw [hrest, discCount_pass, List.countP_cons_of_neg (by simp [Move.isPlay])]

/-- What a disc captures decides whether it may be placed and what the placement leads to. -/
theorem apply_play_eq_ok_iff_masks :
    p.apply (.play s) = .ok q ↔
      p.empty.contains s = true ∧ Mask.flips s p.own p.opposing ≠ 0 ∧
        q.opposing = p.own ||| Mask.flips s p.own p.opposing ||| Mask.single s ∧
        q.own = p.opposing &&& ~~~Mask.flips s p.own p.opposing := by
  rw [apply_play_eq_ok_iff, ← and_assoc, ← contains_moves]
  refine and_congr_right fun hs => ?_
  rw [← own_place hs]
  constructor
  · rintro rfl
    exact ⟨rfl, rfl⟩
  · rintro ⟨hopposing, hown⟩
    exact eq_of_masks hown.symm hopposing.symm

/-- A disc captures exactly the opposing discs that lie on one of the eight rays before a disc of its
own colour with only opposing discs between. A disc may be placed on an empty square where it captures
something: the mover gets the square and what is captured, the other side loses just that, and there
is one disc more. A pass changes the sides and nothing else. So a sequence of legal moves has at most
as many placements as there are empty squares. -/
theorem moves_follow_the_rules :
    (∀ (s t : Square) (own opposing : Mask),
      (Mask.flips s own opposing).contains t = true ↔
        ∃ δ m, IsRayStep δ ∧ Mask.ClosesRay own opposing s δ m ∧
          ∃ k, 1 ≤ k ∧ k < m ∧ s.IsStep δ k t) ∧
    ∀ p : Position,
      (∀ s q, p.apply (.play s) = .ok q ↔
        p.empty.contains s = true ∧ Mask.flips s p.own p.opposing ≠ 0 ∧
          q.opposing = p.own ||| Mask.flips s p.own p.opposing ||| Mask.single s ∧
          q.own = p.opposing &&& ~~~Mask.flips s p.own p.opposing) ∧
      (∀ s q, p.apply (.play s) = .ok q →
        q.own &&& q.opposing = 0 ∧ q.discCount = p.discCount + 1) ∧
      (∀ q, p.apply .pass = .ok q ↔ p.moves = 0 ∧ q.own = p.opposing ∧ q.opposing = p.own) ∧
      ∀ ms q, p.applyAll ms = .ok q → ms.countP Move.isPlay ≤ p.emptyCount := by
  refine ⟨fun s t own opposing => Mask.contains_flips_iff, fun p =>
    ⟨fun s q => apply_play_eq_ok_iff_masks, fun s q h => ?_, fun q => ?_, fun ms q h => ?_⟩⟩
  · obtain ⟨hs, rfl⟩ := apply_play_eq_ok_iff.1 h
    exact ⟨(p.place s).disjoint, discCount_place hs⟩
  · rw [apply_pass_eq_ok_iff]
    refine and_congr_right fun _ => ⟨?_, fun h => eq_of_masks h.1.symm h.2.symm⟩
    rintro rfl
    exact ⟨rfl, rfl⟩
  · have hdiscs := discCount_applyAll h
    have hle := q.discCount_le
    rw [emptyCount]
    omega

/-- On `c3` a disc captures along two rays, but not the run that goes on to the edge. And a side that
has to pass lets the other one place a disc in the corner. -/
theorem moves_follow_the_rules_two_rays :
    ∃ (p q blocked r : Position),
      Mask.flips 18 p.own p.opposing = Mask.single 10 ||| Mask.single 17 ∧
      (∃ δ m, IsRayStep δ ∧ Mask.ClosesRay p.own p.opposing 18 δ m ∧
        ∃ k, 1 ≤ k ∧ k < m ∧ Square.IsStep δ k 18 10) ∧
      (¬∃ δ m, IsRayStep δ ∧ Mask.ClosesRay p.own p.opposing 18 δ m ∧
        ∃ k, 1 ≤ k ∧ k < m ∧ Square.IsStep δ k 18 19) ∧
      p.apply (.play 18) = .ok q ∧ q.own &&& q.opposing = 0 ∧ q.discCount = p.discCount + 1 ∧
      blocked.applyAll [.pass, .play 0] = .ok r ∧
      [Move.pass, .play 0].countP Move.isPlay ≤ blocked.emptyCount := by
  let p : Position := ⟨0x10004, 0xfa0400, by decide⟩
  let blocked : Position := ⟨0x02, 0xfc, by decide⟩
  obtain ⟨hflips, hmoves⟩ := moves_follow_the_rules
  obtain ⟨-, hplay, -, -⟩ := hmoves p
  obtain ⟨-, -, -, hplays⟩ := hmoves blocked
  have hcaptured : Mask.flips 18 p.own p.opposing = Mask.single 10 ||| Mask.single 17 := by
    decide +kernel
  have hp : p.apply (.play 18) = .ok (p.place 18) := by decide +kernel
  have hblocked : blocked.applyAll [.pass, .play 0] = .ok (blocked.pass.place 0) := by
    decide +kernel
  exact ⟨p, p.place 18, blocked, blocked.pass.place 0, hcaptured,
    (hflips 18 10 _ _).1 (by rw [hcaptured]; decide),
    mt (hflips 18 19 _ _).2 (by rw [hcaptured]; decide), hp, (hplay 18 _ hp).1, (hplay 18 _ hp).2,
    hblocked, hplays _ _ hblocked⟩

end Position
end OthelloBook
