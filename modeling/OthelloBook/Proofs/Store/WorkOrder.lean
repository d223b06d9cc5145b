import OthelloBook.Proofs.Store.Worklist

/-!
# The order of the work list

The work list of a number of discs shows rows by level, then by priority, then by age. A save for a
position changes nothing in the work lists of other numbers of discs.
-/
namespace OthelloBook

/-- A sort keeps the order that a list has among elements that compare as equal. -/
theorem pairwise_mergeSort_stable {α : Type} {le : α → α → Bool} {before : α → α → Prop}
    {l : List α} (htrans : ∀ a b c, le a b = true → le b c = true → le a c = true)
    (htotal : ∀ a b, (le a b || le b a) = true) (h : l.Pairwise before) :
    (l.mergeSort le).Pairwise fun a b => le a b = true ∧ (le b a = true → before a b) := by
  -- Each element is sorted together with its index, which decides between equals.
  have hsorted := List.pairwise_mergeSort (List.zipIdxLE_trans htrans) (List.zipIdxLE_total htotal)
    l.zipIdx
  have hindices : (l.zipIdx.mergeSort (List.zipIdxLE le)).Pairwise fun x y => x.2 ≠ y.2 := by
    apply List.pairwise_map.1
    change List.Nodup _
    rw [((List.mergeSort_perm _ _).map _).nodup_iff, List.zipIdx_map_snd]
    exact List.nodup_range'
  rw [← List.mergeSort_zipIdx, List.pairwise_map]
  refine (hsorted.and hindices).imp_of_mem fun {x y} hx hy hxy => ?_
  obtain ⟨hle, hne⟩ := hxy
  obtain ⟨hxlt, hxget⟩ := List.mem_zipIdx' (List.mem_mergeSort.1 hx)
  obtain ⟨hylt, hyget⟩ := List.mem_zipIdx' (List.mem_mergeSort.1 hy)
  simp only [List.zipIdxLE] at hle
  by_cases hlt : le x.1 y.1 = true
  · refine ⟨hlt, fun hge => ?_⟩
    have hidx : x.2 ≤ y.2 := by simpa [hlt, hge] using hle
    have hbefore := List.pairwise_iff_getElem.1 h x.2 y.2 hxlt hylt (lt_of_le_of_ne hidx hne)
    rwa [← hxget, ← hyget] at hbefore
  · simp [hlt] at hle

namespace Store

variable {s : Store} {discs level : ℕ}

section Order

def Precedes (s : Store) (a b : Row) : Prop :=
  a.level < b.level ∨ a.level = b.level ∧
    (a.priority < b.priority ∨ a.priority = b.priority ∧ s.rows.idxOf a < s.rows.idxOf b)

theorem byLevel_iff {a b : Row} :
    byLevel a b = true ↔ a.level < b.level ∨ a.level = b.level ∧ a.priority ≤ b.priority := by
  simp [byLevel]

theorem byLevel_trans (a b c : Row) (hab : byLevel a b = true) (hbc : byLevel b c = true) :
    byLevel a c = true := by
  rw [byLevel_iff] at *
  omega

theorem byLevel_total (a b : Row) : (byLevel a b || byLevel b a) = true := by
  rw [Bool.or_eq_true, byLevel_iff, byLevel_iff]
  omega

theorem pairwise_idxOf (hs : s.Sound) :
    s.rows.Pairwise fun a b => s.rows.idxOf a < s.rows.idxOf b := by
  have hnodup : s.rows.Nodup := hs.distinct.of_map
  rw [List.pairwise_iff_getElem]
  intro i j hi hj hij
  rwa [hnodup.idxOf_getElem, hnodup.idxOf_getElem]

theorem pairwise_rowsBelow (hs : s.Sound) (discs level : ℕ) :
    (s.rowsBelow discs level).Pairwise s.Precedes := by
  refine (pairwise_mergeSort_stable byLevel_trans byLevel_total
    ((pairwise_idxOf hs).filter _)).imp ?_
  rintro a b ⟨hle, htie⟩
  rw [byLevel_iff] at hle htie
  rw [Precedes]
  omega

/-- A position comes before another one when it has fewer discs, or as many and its row precedes. -/
def Before (s : Store) (p q : Position) : Prop :=
  p.discCount < q.discCount ∨ p.discCount = q.discCount ∧
    ∃ a ∈ s.rows, ∃ b ∈ s.rows, a.position = p.bytes ∧ b.position = q.bytes ∧ s.Precedes a b

end Order

section Saves

theorem rowsBelow_put {r : Row} (hdiscs : r.discCount ≠ discs)
    (hsame : ∀ o ∈ s.rows, o.position = r.position → o.discCount = r.discCount) :
    (s.put r).2.rowsBelow discs level = s.rowsBelow discs level := by
  rw [rowsBelow, rowsBelow]
  rcases put_cases s r with ⟨-, hput⟩ | hput <;> rw [hput]
  · rw [List.filter_append, List.filter_cons_of_neg (by simp [hdiscs]), List.filter_nil,
      List.append_nil]
  · -- A row that is replaced is of another number of discs, before and after.
    have hreplaced : ∀ q ∈ s.rows, replaces r q = true → q.discCount ≠ discs := fun q hq hrep =>
      hsame q hq (replaces_iff.1 hrep).1 ▸ hdiscs
    congr 1
    generalize s.rows = rows at hreplaced
    induction rows with
    | nil => rfl
    | cons q rows ih =>
      obtain ⟨hq, hrows⟩ := List.forall_mem_cons.1 hreplaced
      rw [List.map_cons]
      by_cases hrep : replaces r q = true
      · rw [if_pos hrep, List.filter_cons_of_neg (by simp [hq hrep]),
          List.filter_cons_of_neg (by simp [hq hrep]), ih hrows]
      · rw [if_neg hrep, List.filter_cons, List.filter_cons, ih hrows]

/-- A save does not change the work lists of other numbers of discs. -/
theorem rowsBelow_save (hs : s.Sound) {e : Evaluation} (h : e.position.discCount ≠ discs) :
    (s.save e).2.rowsBelow discs level = s.rowsBelow discs level := by
  rw [save]
  by_cases he : e.isSavable = true
  · rw [if_pos he]
    have hcount : (Row.ofEvaluation e.canonicalize).discCount = e.position.discCount := by
      rw [Row.ofEvaluation, Evaluation.position_canonicalize, Position.discCount_canonical]
    apply rowsBelow_put
    · rw [hcount]
      exact_mod_cast h
    · intro o ho hpos
      rw [(hs.of_position ho hpos).2.2]
      rfl
  · rw [if_neg he]

end Saves
end Store
end OthelloBook
