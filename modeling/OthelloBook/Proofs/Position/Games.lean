import OthelloBook.Proofs.Position.Equivariance

/-!
# The positions of a game

A disc that is placed turns others over and adds one to the board, and a pass adds none. So the
number of discs counts the moves of a game, and each position that a game comes to, unless neither
side has a move there, is kept under the image of one with a legal move.
-/
namespace OthelloBook

namespace Position

variable {p q : Position} {s : Square}

theorem discCount_eq_count (p : Position) : p.discCount = (p.own ||| p.opposing).count :=
  (Mask.count_or p.disjoint).symm

/-- A disc that is placed is added to the board, and those that it captures stay. -/
theorem masks_place (p : Position) (s : Square) :
    (p.place s).own ||| (p.place s).opposing = (p.own ||| p.opposing) ||| Mask.single s := by
  apply Mask.eq_of_contains
  intro t
  simp only [place, claimed, Mask.contains_or, Mask.contains_and, Mask.contains_not]
  cases hflips : (Mask.flips s p.own p.opposing).contains t with
  | false => cases p.own.contains t <;> cases p.opposing.contains t <;> simp
  | true => simp [Mask.opposing_of_flips hflips]

theorem discCount_place (h : p.moves.contains s = true) :
    (p.place s).discCount = p.discCount + 1 := by
  have hfree : (p.own ||| p.opposing) &&& Mask.single s = 0 := by
    have hempty := (contains_moves.1 h).1
    rw [contains_empty, Bool.and_eq_true, Bool.not_eq_true', Bool.not_eq_true'] at hempty
    apply Mask.eq_of_contains
    intro t
    by_cases ht : s = t
    · simp [← ht, hempty]
    · simp [ht]
  rw [discCount_eq_count, masks_place, Mask.count_or hfree, Mask.count_single, discCount_eq_count]

@[simp] theorem discCount_pass (p : Position) : p.pass.discCount = p.discCount :=
  Nat.add_comm _ _

theorem hasMoves_of_contains (h : p.moves.contains s = true) : p.hasMoves = true := by
  rw [hasMoves, bne_iff_ne]
  exact Mask.ne_zero_iff.2 ⟨s, h⟩

@[simp] theorem hasMoves_canonical (p : Position) : p.canonical.hasMoves = p.hasMoves := by
  rw [canonical_eq_rotate, hasMoves_rotate]

end Position

namespace LookupRule

variable {p k : Position} {s : Symmetry}

theorem storageKey?_of_hasMoves (h : p.hasMoves = true) : storageKey? p = some p.canonical := by
  rw [storageKey?, of, if_pos h]

/-- Both sides of a position without a legal move have the same key. -/
theorem storageKey?_pass (h : p.hasMoves = false) : storageKey? p.pass = storageKey? p := by
  rw [storageKey?, storageKey?, of, of, Position.pass_pass, h]
  cases p.pass.hasMoves <;> rfl

theorem storageKey?_eq_some_iff :
    storageKey? p = some k ↔ p.hasMoves = true ∧ p.canonical = k ∨
      p.hasMoves = false ∧ p.pass.hasMoves = true ∧ p.pass.canonical = k := by
  rw [storageKey?, of]
  cases p.hasMoves <;> cases p.pass.hasMoves <;> simp

theorem isGameEnd_of_storageKey? (h : storageKey? p = some k) : p.isGameEnd = false := by
  rw [Position.isGameEnd]
  rcases storageKey?_eq_some_iff.1 h with ⟨hmoves, -⟩ | ⟨-, hmoves, -⟩ <;> simp [hmoves]

/-- The positions after a disc is placed have the same keys for all images of a position. -/
theorem exists_place_rotate :
    (∃ q, (p.rotate s).moves.contains q = true ∧ storageKey? ((p.rotate s).place q) = some k) ↔
      ∃ q, p.moves.contains q = true ∧ storageKey? (p.place q) = some k := by
  rw [s.onSquare_surjective.exists]
  simp only [Position.moves_rotate, Symmetry.contains_onMask, Position.place_rotate,
    storageKey?_rotate]

theorem exists_place_canonical :
    (∃ q, p.canonical.moves.contains q = true ∧ storageKey? (p.canonical.place q) = some k) ↔
      ∃ q, p.moves.contains q = true ∧ storageKey? (p.place q) = some k := by
  rw [Position.canonical_eq_rotate, exists_place_rotate]

end LookupRule

namespace Position

inductive Reached : Position → Prop
  | start : Reached start
  | move {p q : Position} {m : Move} (before : Reached p) (h : p.after? m = some q) : Reached q

variable {p q k : Position}

theorem applyAll_append_singleton_eq_ok_iff {ms : List Move} {m : Move} :
    p.applyAll (ms ++ [m]) = .ok k ↔ ∃ q, p.applyAll ms = .ok q ∧ q.after? m = some k := by
  induction ms generalizing p with
  | nil =>
    rw [List.nil_append, applyAll, applyAll, apply]
    cases h : p.after? m <;> simp [applyAll, h]
  | cons n ms ih =>
    rw [List.cons_append, applyAll, applyAll]
    cases p.apply n with
    | ok r => exact ih
    | error e => simp

theorem reached_iff : Reached q ↔ ∃ ms, start.applyAll ms = .ok q := by
  constructor
  · intro h
    induction h with
    | start => exact ⟨[], rfl⟩
    | @move p q m before h ih =>
      obtain ⟨ms, hms⟩ := ih
      exact ⟨ms ++ [m], applyAll_append_singleton_eq_ok_iff.2 ⟨p, hms, h⟩⟩
  · rintro ⟨ms, hms⟩
    induction ms using List.reverseRecOn generalizing q with
    | nil => exact Except.ok.inj hms ▸ .start
    | append_singleton ms m ih =>
      obtain ⟨p, hp, hq⟩ := applyAll_append_singleton_eq_ok_iff.1 hms
      exact (ih hp).move hq

theorem Reached.place (h : Reached p) {s : Square} (hs : p.moves.contains s = true) :
    Reached (p.place s) :=
  h.move (m := .play s) (by rw [after?_play, if_pos hs])

theorem Reached.pass (h : Reached p) (hblocked : p.hasMoves = false) : Reached p.pass :=
  h.move (m := .pass) (by simp [after?, hblocked])

/-- What a move leads to: a disc is placed, or there was no place for one. -/
theorem after?_cases {m : Move} (h : p.after? m = some q) :
    (∃ s, p.moves.contains s = true ∧ q = p.place s) ∨ p.hasMoves = false ∧ q = p.pass := by
  cases m with
  | play s =>
    rw [after?_play] at h
    split at h
    · rename_i hs
      exact .inl ⟨s, hs, (Option.some.inj h).symm⟩
    · cases h
  | pass =>
    rw [after?] at h
    cases hmoves : p.hasMoves with
    | true => simp [hmoves] at h
    | false => exact .inr ⟨rfl, by simpa [hmoves] using h.symm⟩

/-- The key of a position of a game is the image of one with a legal move and as many discs. -/
theorem Reached.exists_of_storageKey? (h : Reached q) (hk : LookupRule.storageKey? q = some k) :
    ∃ p, Reached p ∧ p.discCount = q.discCount ∧ p.hasMoves = true ∧ p.canonical = k := by
  rcases LookupRule.storageKey?_eq_some_iff.1 hk with ⟨hmoves, hk⟩ | ⟨hblocked, hmoves, hk⟩
  · exact ⟨q, h, rfl, hmoves, hk⟩
  · exact ⟨q.pass, h.pass hblocked, q.discCount_pass, hmoves, hk⟩

end Position
end OthelloBook
