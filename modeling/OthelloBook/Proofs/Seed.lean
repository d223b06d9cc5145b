import OthelloBook.Proofs.Cache.Lookup
import OthelloBook.Proofs.Position.Games
import OthelloBook.Seed

/-!
# What seeding enumerates

From the keys of one number of discs those of the next one are found by placing a disc in all possible
ways. Only the images that stand for all others are looked at, and a side that has to pass is replaced
by the other one. No game is missed by this, as images have the same keys after a move, and so have
both sides of a position without a legal move.
-/
namespace OthelloBook

namespace Seed

open Position LookupRule

variable {k : Position}

theorem mem_successors {ps : List Position} :
    k ∈ successors ps ↔
      ∃ p ∈ ps, ∃ s, p.moves.contains s = true ∧ storageKey? (p.place s) = some k := by
  rw [successors, mem_ascending, List.mem_flatMap]
  refine exists_congr fun p => and_congr_right fun _ => ?_
  simp [List.mem_filterMap, Prod.exists, mem_children]

def layer (n : ℕ) : List Position := successors^[n] (storageKey? start).toList

theorem layer_succ (n : ℕ) : layer (n + 1) = successors (layer n) :=
  Function.iterate_succ_apply' ..

theorem layersFrom_eq_map (discs : ℕ) (ps : List Position) (n : ℕ) :
    layersFrom discs ps n = (List.range n).map fun i => (discs + i, successors^[i] ps) := by
  induction n generalizing discs ps with
  | zero => rfl
  | succ n ih =>
    have hcons : layersFrom discs ps (n + 1) =
        (discs, ps) :: layersFrom (discs + 1) (successors ps) n := by
      cases n <;> rfl
    rw [hcons, ih, List.range_succ_eq_map, List.map_cons, List.map_map]
    congr 1
    refine List.map_congr_left fun i _ => ?_
    rw [Function.comp_apply, Function.iterate_succ_apply, Nat.succ_eq_add_one, Nat.add_assoc,
      Nat.add_comm 1]

theorem pairwise_layer (n : ℕ) : (layer n).Pairwise (· < ·) := by
  cases n with
  | zero =>
    rw [layer, Function.iterate_zero_apply]
    cases storageKey? start <;> simp
  | succ n =>
    rw [layer_succ]
    exact pairwise_ascending _

theorem discCount_start : start.discCount = Level.minDiscs := by decide +kernel

/-- Each key after some moves is that of a position of a game with a legal move. -/
theorem exists_of_mem_layer {n : ℕ} (h : k ∈ layer n) :
    ∃ p, Reached p ∧ p.discCount = Level.minDiscs + n ∧ p.hasMoves = true ∧ p.canonical = k := by
  induction n generalizing k with
  | zero =>
    have hkey : storageKey? start = some k := by
      rwa [layer, Function.iterate_zero_apply, Option.mem_toList] at h
    obtain ⟨p, hp, hdiscs, hmoves, hk⟩ := Reached.start.exists_of_storageKey? hkey
    exact ⟨p, hp, hdiscs.trans discCount_start, hmoves, hk⟩
  | succ n ih =>
    rw [layer_succ, mem_successors] at h
    obtain ⟨c, hc, hplaced⟩ := h
    obtain ⟨p, hp, hdiscs, -, rfl⟩ := ih hc
    -- The disc is placed in the canonical image, and so it can be placed in the position itself.
    obtain ⟨s, hs, hkey⟩ := exists_place_canonical.1 hplaced
    obtain ⟨q, hq, hdiscs', hmoves, hk⟩ := (hp.place hs).exists_of_storageKey? hkey
    rw [discCount_place hs, hdiscs] at hdiscs'
    exact ⟨q, hq, hdiscs', hmoves, hk⟩

/-- The key of each position of a game is found after as many moves as it has more discs than the
first position. -/
theorem mem_layer_of_reached {q : Position} (h : Reached q) :
    ∃ n, q.discCount = Level.minDiscs + n ∧ ∀ k, storageKey? q = some k → k ∈ layer n := by
  induction h with
  | start => exact ⟨0, discCount_start, fun k hk => Option.mem_toList.2 hk⟩
  | @move p q m before h ih =>
    obtain ⟨n, hdiscs, hkeys⟩ := ih
    rcases after?_cases h with ⟨s, hs, rfl⟩ | ⟨hblocked, rfl⟩
    · refine ⟨n + 1, by rw [discCount_place hs, hdiscs, Nat.add_assoc], fun k hk => ?_⟩
      rw [layer_succ, mem_successors]
      exact ⟨p.canonical, hkeys _ (storageKey?_of_hasMoves (hasMoves_of_contains hs)),
        exists_place_canonical.2 ⟨s, hs, hk⟩⟩
    · refine ⟨n, by rw [discCount_pass, hdiscs], fun k hk => ?_⟩
      rw [storageKey?_pass hblocked] at hk
      exact hkeys k hk

theorem mem_layer_iff {n : ℕ} :
    k ∈ layer n ↔
      ∃ q, Reached q ∧ q.discCount = Level.minDiscs + n ∧ storageKey? q = some k := by
  constructor
  · intro h
    obtain ⟨p, hp, hdiscs, hmoves, rfl⟩ := exists_of_mem_layer h
    exact ⟨p, hp, hdiscs, storageKey?_of_hasMoves hmoves⟩
  · rintro ⟨q, hq, hdiscs, hk⟩
    obtain ⟨m, hm, hkeys⟩ := mem_layer_of_reached hq
    obtain rfl : m = n := by omega
    exact hkeys k hk

/-- For each number of discs from that of the first position to the bound, seeding lists once each and
in ascending order the keys of just those positions with so many discs that moves and passes lead to
from the first position and where the game goes on. All of these are canonical and have a legal move. -/
theorem layers_are_the_keys_of_all_games (max : ℕ) :
    (layers max).map Prod.fst = List.range' 4 (min max 30 + 1 - 4) ∧
    ∀ discs ps, (discs, ps) ∈ layers max →
      ps.Pairwise (· < ·) ∧
      (∀ k, k ∈ ps ↔ ∃ ms q, start.applyAll ms = .ok q ∧ q.discCount = discs ∧
        q.isGameEnd = false ∧ storageKey? q = some k) ∧
      ∀ k ∈ ps, k.canonical = k ∧ k.discCount = discs ∧ k.hasMoves = true := by
  rw [layers, layersFrom_eq_map]
  refine ⟨?_, fun discs ps hlayer => ?_⟩
  · rw [List.map_map, List.range'_eq_map_range]
    rfl
  · obtain ⟨n, -, hn⟩ := List.mem_map.1 hlayer
    obtain ⟨rfl, rfl⟩ := Prod.mk.inj hn
    rw [← layer]
    refine ⟨pairwise_layer n, fun k => ?_, fun k hk => ?_⟩
    · rw [mem_layer_iff]
      constructor
      · rintro ⟨q, hq, hdiscs, hk⟩
        obtain ⟨ms, hms⟩ := reached_iff.1 hq
        exact ⟨ms, q, hms, hdiscs, isGameEnd_of_storageKey? hk, hk⟩
      · rintro ⟨ms, q, hms, hdiscs, -, hk⟩
        exact ⟨q, reached_iff.2 ⟨ms, hms⟩, hdiscs, hk⟩
    · obtain ⟨p, -, hdiscs, hmoves, rfl⟩ := exists_of_mem_layer hk
      exact ⟨p.canonical_canonical, by rw [discCount_canonical, hdiscs],
        by rw [hasMoves_canonical, hmoves]⟩

/-- After two moves there are three positions, up to symmetry. That after `d3 c3` stands for itself. -/
theorem layers_are_the_keys_of_all_games_two_moves :
    ∃ (ps : List Position) (q : Position), (6, ps) ∈ layers 6 ∧ ps.length = 3 ∧
      ps.Pairwise (· < ·) ∧ start.applyAll [.play 19, .play 18] = .ok q ∧ q ∈ ps := by
  let q : Position := ⟨0x0000000810080000, 0x0000001008040000, by decide⟩
  have hq : start.applyAll [.play 19, .play 18] = .ok q := by decide +kernel
  have hlayer : (6, layer 2) ∈ layers 6 := by decide +kernel
  obtain ⟨hsorted, hkeys, -⟩ := (layers_are_the_keys_of_all_games 6).2 6 (layer 2) hlayer
  have hmem : q ∈ layer 2 :=
    (hkeys q).2 ⟨_, q, hq, by decide +kernel, by decide +kernel, by decide +kernel⟩
  exact ⟨layer 2, q, hlayer, by decide +kernel, hsorted, hq, hmem⟩

end Seed
end OthelloBook
