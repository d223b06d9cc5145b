import OthelloBook.Proofs.Store.Saves

/-!
# The row of a position

A put is decided by the row that the store has for its position, and changes no other row: it is
inserted if there is none, and takes its place if that one is of a lower grade.
-/
namespace OthelloBook

/-- What is left of a row after another one is put for the same position. The number of discs is
that of the position and stays. -/
def Row.better (old new : Row) : Row :=
  if old.grade < new.grade then { new with discCount := old.discCount } else old

theorem Row.better_of_lt {old new : Row} (h : old.grade < new.grade) :
    old.better new = { new with discCount := old.discCount } := if_pos h

theorem Row.better_of_not_lt {old new : Row} (h : ¬old.grade < new.grade) :
    old.better new = old := if_neg h

def Evaluation.row (e : Evaluation) : Row := .ofEvaluation e.canonicalize

theorem Evaluation.position_row (e : Evaluation) : e.row.position = e.position.canonical.bytes := by
  rw [← position_canonicalize]
  rfl

namespace Store

/-- No position has two rows. -/
def Unique (s : Store) : Prop := (s.rows.map Row.position).Nodup

instance (s : Store) : Decidable s.Unique := inferInstanceAs (Decidable (List.Nodup _))

variable {s : Store} {q r : Row} {k : List UInt8}

theorem position_of_find? (h : s.find? k = some q) : q.position = k := by
  simpa using List.find?_some h

theorem mem_of_find? (h : s.find? k = some q) : q ∈ s.rows := List.mem_of_find?_eq_some h

theorem find?_eq_none_iff : s.find? k = none ↔ ∀ q ∈ s.rows, q.position ≠ k := by
  simp [find?]

theorem find?_of_mem (hs : s.Unique) (h : q ∈ s.rows) : s.find? q.position = some q := by
  cases hq : s.find? q.position with
  | none => exact absurd rfl (find?_eq_none_iff.1 hq q h)
  | some o => rw [List.inj_on_of_nodup_map hs (mem_of_find? hq) h (position_of_find? hq)]

def replaced (s : Store) (r : Row) : Store :=
  ⟨s.rows.map fun q => if replaces r q then { r with discCount := q.discCount } else q⟩

theorem find?_append (s : Store) (r : Row) (k : List UInt8) :
    find? ⟨s.rows ++ [r]⟩ k = (s.find? k).or (if r.position = k then some r else none) := by
  by_cases hk : r.position = k <;> simp [find?, List.find?_append, hk]

theorem find?_replaced (s : Store) (r : Row) (k : List UInt8) :
    (s.replaced r).find? k =
      if r.position = k then (s.find? k).map (·.better r) else s.find? k := by
  have hsame : ∀ q : Row, (if replaces r q then { r with discCount := q.discCount } else q) =
      if q.position = r.position then q.better r else q := by
    intro q
    by_cases hpos : q.position = r.position <;> by_cases hlt : q.grade < r.grade <;>
      simp [replaces, Row.better, hpos, hlt]
  have hposition : ∀ q : Row,
      (if q.position = r.position then q.better r else q).position = q.position := by
    intro q
    by_cases hpos : q.position = r.position <;> by_cases hlt : q.grade < r.grade <;>
      simp [Row.better, hpos, hlt]
  have hmap : (s.replaced r).find? k =
      (s.find? k).map fun q => if q.position = r.position then q.better r else q := by
    simp only [replaced, find?, hsame, List.find?_map, Function.comp_def, hposition]
  rw [hmap]
  cases hq : s.find? k with
  | none => simp
  | some q =>
    have hpos := position_of_find? hq
    by_cases hk : r.position = k
    · simp [hk, hpos]
    · simp [hk, hpos, Ne.symm hk]

theorem insertIfAbsent_of_none (h : s.find? r.position = none) :
    s.insertIfAbsent r = some ⟨s.rows ++ [r]⟩ := by
  rw [insertIfAbsent, if_neg]
  simpa using find?_eq_none_iff.1 h

theorem insertIfAbsent_of_some (h : s.find? r.position = some q) : s.insertIfAbsent r = none := by
  rw [insertIfAbsent, if_pos]
  exact List.any_eq_true.2 ⟨q, mem_of_find? h, by simpa using position_of_find? h⟩

theorem upgrade_of_lt (h : s.find? r.position = some q) (hlt : q.grade < r.grade) :
    s.upgrade r = some (s.replaced r) := by
  rw [upgrade, if_pos]
  · rfl
  · exact List.any_eq_true.2 ⟨q, mem_of_find? h, replaces_iff.2 ⟨position_of_find? h, hlt⟩⟩

theorem upgrade_of_not_lt (hs : s.Unique) (h : s.find? r.position = some q)
    (hlt : ¬q.grade < r.grade) : s.upgrade r = none := by
  rw [upgrade, if_neg]
  intro hany
  obtain ⟨o, ho, hrep⟩ := List.any_eq_true.1 hany
  obtain ⟨hpos, hgrade⟩ := replaces_iff.1 hrep
  have hfound := find?_of_mem hs ho
  rw [hpos, h, Option.some.injEq] at hfound
  exact hlt (hfound ▸ hgrade)

theorem put_of_none (h : s.find? r.position = none) :
    s.put r = (.inserted, ⟨s.rows ++ [r]⟩) := by
  rw [put, insertIfAbsent_of_none h]

theorem put_of_lt (h : s.find? r.position = some q) (hlt : q.grade < r.grade) :
    s.put r = (.upgraded, s.replaced r) := by
  rw [put, insertIfAbsent_of_some h]
  dsimp only
  rw [upgrade_of_lt h hlt]

theorem put_of_not_lt (hs : s.Unique) (h : s.find? r.position = some q)
    (hlt : ¬q.grade < r.grade) : s.put r = (.kept, s) := by
  rw [put, insertIfAbsent_of_some h]
  dsimp only
  rw [upgrade_of_not_lt hs h hlt]

/-- A put changes the row of its own position only. -/
theorem find?_put (hs : s.Unique) (r : Row) (k : List UInt8) :
    (s.put r).2.find? k =
      if r.position = k then (s.find? k).merge Row.better (some r) else s.find? k := by
  cases hq : s.find? r.position with
  | none =>
    rw [put_of_none hq, find?_append]
    by_cases hk : r.position = k
    · simp [← hk, hq]
    · simp [hk]
  | some q =>
    by_cases hlt : q.grade < r.grade
    · rw [put_of_lt hq hlt, find?_replaced]
      by_cases hk : r.position = k
      · simp [← hk, hq]
      · simp [hk]
    · rw [put_of_not_lt hs hq hlt]
      by_cases hk : r.position = k
      · simp [← hk, hq, Row.better_of_not_lt hlt]
      · simp [hk]

theorem unique_put (hs : s.Unique) (r : Row) : (s.put r).2.Unique := by
  rcases map_position_put (s := s) (r := r) with h | ⟨hnew, h⟩ <;> rw [Unique, h]
  · exact hs
  · exact hs.append (List.nodup_singleton _) (List.disjoint_singleton.2 hnew)

section Save

variable {e : Evaluation}

theorem save_of_savable (h : e.isSavable = true) : s.save e = s.put e.row := if_pos h

theorem save_of_not_savable (h : ¬e.isSavable = true) : s.save e = (.notSavable, s) := if_neg h

theorem unique_save (hs : s.Unique) (e : Evaluation) : (s.save e).2.Unique := by
  by_cases he : e.isSavable = true
  · rw [save_of_savable he]
    exact unique_put hs _
  · rwa [save_of_not_savable he]

end Save

end Store
end OthelloBook
