import OthelloBook.Proofs.Evaluation
import OthelloBook.Proofs.Position.Bytes
import OthelloBook.Proofs.Store.Rows
import OthelloBook.Store.Basic

/-!
# What saves leave behind

A store that was filled by saves has one row for each position, and every row is that of an
evaluation of a canonical position that the book keeps. A single put keeps this: it changes nothing
but the row of its own position.
-/
namespace OthelloBook.Store

/-- The store after evaluations are saved one after the other, from nothing. -/
def filled (es : List Evaluation) : Store := (empty.saveAll es).2

/-- An evaluation as it is kept: of a canonical position, and worth keeping. -/
structure Kept (e : Evaluation) : Prop where
  canonical : e.position.canonical = e.position
  savable : e.isSavable = true

/-- One row for each position, each of them of an evaluation that is kept. -/
structure Sound (s : Store) : Prop where
  distinct : (s.rows.map Row.position).Nodup
  kept : ∀ r ∈ s.rows, ∃ e, Kept e ∧ r = Row.ofEvaluation e

theorem Kept.position_savable {e : Evaluation} (h : Kept e) : e.position.isSavable = true := by
  have hs := h.savable
  rw [Evaluation.isSavable, Bool.and_eq_true] at hs
  exact hs.2

/-- A stored position is canonical, can be kept, and has the number of discs of its row. -/
theorem Sound.of_position {s : Store} (hs : s.Sound) {r : Row} (hr : r ∈ s.rows) {p : Position}
    (hpos : r.position = p.bytes) :
    p.canonical = p ∧ p.isSavable = true ∧ r.discCount = p.discCount := by
  obtain ⟨e, he, rfl⟩ := hs.kept r hr
  obtain rfl : e.position = p := Position.bytes_inj.1 hpos
  exact ⟨he.canonical, he.position_savable, rfl⟩

theorem kept_canonicalize {e : Evaluation} (h : e.isSavable = true) : Kept e.canonicalize where
  canonical := by rw [Evaluation.position_canonicalize, Position.canonical_canonical]
  savable := by rw [Evaluation.isSavable_canonicalize, h]

section Put

variable {s : Store} {r : Row}

/-- A put appends its row if the position is new, and else changes the rows that it replaces. -/
theorem put_cases (s : Store) (r : Row) :
    ((∀ o ∈ s.rows, o.position ≠ r.position) ∧ (s.put r).2.rows = s.rows ++ [r]) ∨
      (s.put r).2.rows = s.rows.map fun q =>
        if replaces r q then { r with discCount := q.discCount } else q := by
  rw [put, insertIfAbsent]
  by_cases hany : s.rows.any (fun q => q.position = r.position) = true
  · right
    rw [if_pos hany, upgrade]
    by_cases hrep : s.rows.any (replaces r) = true
    · rw [if_pos hrep]
    · rw [if_neg hrep]
      have hnone : ∀ q ∈ s.rows, ¬replaces r q = true := by simpa using hrep
      exact (List.map_congr_left fun q hq => if_neg (hnone q hq)).trans (List.map_id _) |>.symm
  · left
    rw [if_neg hany]
    exact ⟨by simpa using hany, rfl⟩

theorem replaces_iff {q : Row} :
    replaces r q = true ↔ q.position = r.position ∧ q.grade < r.grade := by
  rw [replaces, Bool.and_eq_true, decide_eq_true_eq, decide_eq_true_eq]

/-- Every row after a put was there and is not replaced, or is the new one, or has taken the place
of another row of its position. -/
theorem mem_put {q : Row} (h : q ∈ (s.put r).2.rows) :
    (q ∈ s.rows ∧ replaces r q = false) ∨ q = r ∨
      ∃ o ∈ s.rows, o.position = r.position ∧ q = { r with discCount := o.discCount } := by
  rcases put_cases s r with ⟨hnew, hput⟩ | hput
  · rw [hput, List.mem_append, List.mem_singleton] at h
    exact h.imp (fun hq => ⟨hq, by simp [replaces, hnew q hq]⟩) .inl
  · rw [hput] at h
    obtain ⟨o, ho, hq⟩ := List.mem_map.1 h
    split at hq
    · rename_i hrep
      exact .inr (.inr ⟨o, ho, (replaces_iff.1 hrep).1, hq.symm⟩)
    · rename_i hrep
      rw [← hq]
      exact .inl ⟨ho, by simpa using hrep⟩

/-- A put leaves the positions as they are, or adds its own to them. -/
theorem map_position_put :
    (s.put r).2.rows.map Row.position = s.rows.map Row.position ∨
      (r.position ∉ s.rows.map Row.position ∧
        (s.put r).2.rows.map Row.position = s.rows.map Row.position ++ [r.position]) := by
  rcases put_cases s r with ⟨hnew, hput⟩ | hput
  · right
    rw [hput, List.map_append]
    exact ⟨by simpa using hnew, rfl⟩
  · left
    rw [hput, List.map_map]
    refine List.map_congr_left fun q _ => ?_
    rw [Function.comp_apply]
    split
    · rename_i hrep
      exact (replaces_iff.1 hrep).1.symm
    · rfl

theorem sound_put {e : Evaluation} (hs : s.Sound) (he : Kept e) :
    (s.put (.ofEvaluation e)).2.Sound := by
  constructor
  · rcases map_position_put (s := s) (r := .ofEvaluation e) with h | ⟨hnew, h⟩ <;> rw [h]
    · exact hs.distinct
    · exact hs.distinct.append (List.nodup_singleton _) (List.disjoint_singleton.2 hnew)
  · intro q hq
    rcases mem_put hq with ⟨hq, -⟩ | rfl | ⟨o, ho, hpos, rfl⟩
    · exact hs.kept q hq
    · exact ⟨e, he, rfl⟩
    · obtain ⟨f, -, rfl⟩ := hs.kept o ho
      have hfe : f.position = e.position := Position.bytes_inj.1 hpos
      refine ⟨e, he, ?_⟩
      simp [Row.ofEvaluation, hfe]

end Put

theorem sound_empty : empty.Sound := by constructor <;> simp [empty]

theorem sound_save {s : Store} (hs : s.Sound) (e : Evaluation) : (s.save e).2.Sound := by
  rw [save]
  split
  · rename_i he
    exact sound_put hs (kept_canonicalize he)
  · exact hs

theorem saveAll_snd (s : Store) (es : List Evaluation) :
    (s.saveAll es).2 = es.foldl (fun s e => (s.save e).2) s := by
  rw [saveAll]
  generalize 0 = n
  induction es generalizing s n with
  | nil => rfl
  | cons e es ih => exact ih (s.save e).2 _

theorem filled_append_singleton (es : List Evaluation) (e : Evaluation) :
    filled (es ++ [e]) = ((filled es).save e).2 := by
  rw [filled, saveAll_snd, List.foldl_append, filled, saveAll_snd]
  rfl

theorem sound_saveAll {s : Store} (hs : s.Sound) (es : List Evaluation) :
    (s.saveAll es).2.Sound := by
  rw [saveAll_snd]
  induction es generalizing s with
  | nil => exact hs
  | cons e es ih => exact ih (sound_save hs e)

theorem sound_filled (es : List Evaluation) : (filled es).Sound := sound_saveAll sound_empty es

end OthelloBook.Store
