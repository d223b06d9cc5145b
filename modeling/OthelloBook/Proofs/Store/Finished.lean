import OthelloBook.Proofs.Store.Puts
import OthelloBook.Proofs.Store.WorkOrder

/-!
# Finished work

What a level asks for grows with the level. So a search that reaches what its level asks for takes its
position off the work lists of that level and of all lower ones, whatever the row was before. A save
leaves the other positions of every work list as they are, in the same order.
-/
namespace OthelloBook

/-- A higher level asks for no less. -/
theorem Level.lt_floor_mono {discs lower upper : ℕ} (hle : lower ≤ upper) {g : Grade}
    (h : g < (floor discs lower).grade) : g < (floor discs upper).grade := by
  refine trans_trichotomous_right h ?_
  rw [Strength.grade_lt_grade_iff, Strength.lt_iff]
  simp only [floor]
  omega

/-- Sorting and leaving elements out can be done in either order. -/
theorem filter_mergeSort {α : Type} {le : α → α → Bool} {before : α → α → Prop} {l : List α}
    (htrans : ∀ a b c, le a b = true → le b c = true → le a c = true)
    (htotal : ∀ a b, (le a b || le b a) = true) (hasymm : ∀ a b, before a b → ¬before b a)
    (h : l.Pairwise before) (keep : α → Bool) :
    (l.mergeSort le).filter keep = (l.filter keep).mergeSort le := by
  have hsorted := (pairwise_mergeSort_stable htrans htotal h).filter keep
  have hsorted' := pairwise_mergeSort_stable htrans htotal (h.filter keep)
  refine List.Perm.eq_of_pairwise ?_ hsorted hsorted' ?_
  · rintro a b - - ⟨hab, hbefore⟩ ⟨hba, hafter⟩
    exact absurd (hafter hab) (hasymm a b (hbefore hba))
  · exact ((List.mergeSort_perm l le).filter keep).trans (List.mergeSort_perm _ le).symm

namespace Store

variable {s : Store} {p : Position} {e : Evaluation} {discs level : ℕ}

section Others

/-- A put leaves the rows of other positions as they are, and where they are. -/
theorem filter_rows_put (s : Store) (r : Row) :
    (s.put r).2.rows.filter (fun q => decide (q.position ≠ r.position)) =
      s.rows.filter fun q => decide (q.position ≠ r.position) := by
  rcases put_cases s r with ⟨-, hput⟩ | hput <;> rw [hput]
  · rw [List.filter_append, List.filter_cons_of_neg (by simp), List.filter_nil, List.append_nil]
  · induction s.rows with
    | nil => rfl
    | cons q rows ih =>
      rw [List.map_cons]
      by_cases hrep : replaces r q = true
      · rw [if_pos hrep, List.filter_cons_of_neg (by simp),
          List.filter_cons_of_neg (by simp [(replaces_iff.1 hrep).1]), ih]
      · rw [if_neg hrep, List.filter_cons, List.filter_cons, ih]

theorem filter_rows_save (s : Store) (e : Evaluation) :
    (s.save e).2.rows.filter (fun q => decide (q.position ≠ e.position.canonical.bytes)) =
      s.rows.filter fun q => decide (q.position ≠ e.position.canonical.bytes) := by
  by_cases he : e.isSavable = true
  · rw [save_of_savable he, ← e.position_row, filter_rows_put]
  · rw [save_of_not_savable he]

theorem filter_rowsBelow_congr {s' : Store} (hs : s.Sound) (hs' : s'.Sound) {keep : Row → Bool}
    (h : s'.rows.filter keep = s.rows.filter keep) :
    (s'.rowsBelow discs level).filter keep = (s.rowsBelow discs level).filter keep := by
  rw [rowsBelow, rowsBelow,
    filter_mergeSort byLevel_trans byLevel_total (fun _ _ => lt_asymm) ((pairwise_idxOf hs').filter _),
    filter_mergeSort byLevel_trans byLevel_total (fun _ _ => lt_asymm) ((pairwise_idxOf hs).filter _),
    List.filter_comm, h, List.filter_comm]

variable {ps qs : List Position}

theorem map_bytes_filter_worklist (hs : s.Sound) (h : s.worklist discs level = .ok ps)
    (p : Position) : (ps.filter fun q => decide (q ≠ p)).map Position.bytes =
      ((s.rowsBelow discs level).filter fun r => decide (r.position ≠ p.bytes)).map Row.position := by
  have hrows := congrArg (List.filter fun b => decide (b ≠ p.bytes)) (map_bytes_worklist hs h)
  rw [List.filter_map, List.filter_map] at hrows
  simpa [Function.comp_def, Position.bytes_inj] using hrows

/-- A save changes in a work list at most whether its own position is there. -/
theorem filter_worklist_save (hs : s.Sound) (h : s.worklist discs level = .ok ps)
    (h' : (s.save e).2.worklist discs level = .ok qs) :
    (qs.filter fun q => decide (q ≠ e.position.canonical)) =
      ps.filter fun q => decide (q ≠ e.position.canonical) := by
  have hs' := sound_save hs e
  have hinj : Function.Injective Position.bytes := fun _ _ => Position.bytes_inj.1
  apply hinj.list_map
  rw [map_bytes_filter_worklist hs' h', map_bytes_filter_worklist hs h,
    filter_rowsBelow_congr hs hs' (s.filter_rows_save e)]

end Others

section Finished

theorem Below.mono {lower upper : ℕ} (hle : lower ≤ upper) {r : Row} (h : Below lower p r) :
    Below upper p r := by
  obtain ⟨hpos, hconf, hgrade⟩ := h
  exact ⟨hpos, hconf, Level.lt_floor_mono hle hgrade⟩

/-- A position that is listed for a level is listed for all higher ones. -/
theorem mem_worklist_mono (hs : s.Sound) {lower upper : ℕ} (hle : lower ≤ upper)
    (hps : s.worklist discs lower = .ok ps) (hqs : s.worklist discs upper = .ok qs) (hp : p ∈ ps) :
    p ∈ qs := by
  obtain ⟨hdiscs, r, hr, hbelow⟩ := (mem_worklist hs hps).1 hp
  exact (mem_worklist hs hqs).2 ⟨hdiscs, r, hr, hbelow.mono hle⟩

variable {r : Row}

/-- A row below a floor that a search reaches is replaced when the search is saved. -/
theorem save_fst_of_below (hs : s.Sound) (hr : r ∈ s.rows) (hbelow : Below level p r)
    (hposition : e.position.canonical = p) (he : e.isSavable = true)
    (hfloor : ¬e.strength < Level.floor p.discCount level) : (s.save e).1 = .upgraded := by
  have hrow : s.find? e.row.position = some r := by
    rw [e.position_row, hposition, ← hbelow.1]
    exact find?_of_mem hs.distinct hr
  have hgrade : e.row.grade = e.strength.grade := by
    rw [Evaluation.row, Row.grade_ofEvaluation, Evaluation.strength_canonicalize]
  have hlt : r.grade < e.row.grade := by
    rw [hgrade]
    exact trans_trichotomous_right hbelow.2.2 (mt Strength.grade_lt_grade_iff.1 hfloor)
  rw [save_of_savable he, put_of_lt hrow hlt]

/-- After a search that reaches a floor is saved, its position is not listed under this floor. -/
theorem not_mem_worklist_save (hs : s.Sound) (hposition : e.position.canonical = p)
    (he : e.isSavable = true) (hfloor : ¬e.strength < Level.floor p.discCount level)
    (h : (s.save e).2.worklist discs level = .ok qs) : p ∉ qs := by
  intro hp
  obtain ⟨-, q, hq, hbelow⟩ := (mem_worklist (sound_save hs e) h).1 hp
  obtain rfl : e.canonicalize.position = p := by rw [Evaluation.position_canonicalize, hposition]
  rw [save_of_savable he] at hq
  rw [← Evaluation.strength_canonicalize] at hfloor
  exact not_below_of_put hfloor hq hbelow

/-- When a search at the level of a work list that reaches its floor is saved, for any image of a listed
position, the row of the position is replaced. The position is then listed for no level up to this one,
and all other positions are listed as before, in the same order, for every number of discs and every
level. What is listed for a level is listed for all higher ones. -/
theorem finished_work_is_not_listed_again (es : List Evaluation) :
    (∀ discs level, ∃ ps, (filled es).worklist discs level = .ok ps ∧
      ∀ p ∈ ps, ∀ (e : Evaluation) (t : Symmetry), e.position = p.rotate t → e.level = level →
        Level.minimum ≤ level → ¬e.strength < Level.floor discs level →
        ((filled es).save e).1 = .upgraded ∧
        ∀ discs' level', ∃ before after,
          (filled es).worklist discs' level' = .ok before ∧
          ((filled es).save e).2.worklist discs' level' = .ok after ∧
          (level' ≤ level → p ∉ after) ∧
          (after.filter fun q => decide (q ≠ p)) = before.filter fun q => decide (q ≠ p)) ∧
    ∀ discs lower upper, lower ≤ upper → ∃ ps qs,
      (filled es).worklist discs lower = .ok ps ∧ (filled es).worklist discs upper = .ok qs ∧
        ∀ p ∈ ps, p ∈ qs := by
  have hs := sound_filled es
  generalize filled es = s at hs ⊢
  refine ⟨fun discs level => ?_, fun discs lower upper hle => ?_⟩
  · obtain ⟨ps, hps, -⟩ := worklist_of_sound hs discs level
    refine ⟨ps, hps, fun p hp e t hposition hlevel hmin hfloor => ?_⟩
    obtain ⟨rfl, r, hr, hbelow⟩ := (mem_worklist hs hps).1 hp
    obtain ⟨hcanonical, hsavable⟩ := kept_of_mem_worklist hs hps hp
    have hkey : e.position.canonical = p := by
      rw [hposition, Position.canonical_rotate, hcanonical]
    have he : e.isSavable = true := by
      rw [Evaluation.isSavable, hposition, Position.isSavable_rotate, hsavable, hlevel, Bool.and_true,
        decide_eq_true_eq]
      exact hmin
    refine ⟨save_fst_of_below hs hr hbelow hkey he hfloor, fun discs' level' => ?_⟩
    obtain ⟨before, hbefore, -⟩ := worklist_of_sound hs discs' level'
    obtain ⟨after, hafter, -⟩ := worklist_of_sound (sound_save hs e) discs' level'
    refine ⟨before, after, hbefore, hafter, fun hle => ?_, ?_⟩
    · refine not_mem_worklist_save hs hkey he (fun hlt => hfloor ?_) hafter
      rw [← Strength.grade_lt_grade_iff] at hlt ⊢
      exact Level.lt_floor_mono hle hlt
    · rw [← hkey]
      exact filter_worklist_save hs hbefore hafter
  · obtain ⟨ps, hps, -⟩ := worklist_of_sound hs discs lower
    obtain ⟨qs, hqs, -⟩ := worklist_of_sound hs discs upper
    exact ⟨ps, qs, hps, hqs, fun p => mem_worklist_mono hs hle hps hqs⟩

/-- The first position and another one of four discs are both listed at first. A finished search of the
first one's mirror image takes only the first position off. Under a lower level nothing else is listed. -/
theorem finished_work_is_not_listed_again_mirror_image :
    ∃ (es : List Evaluation) (e : Evaluation) (other : Position) (before after low : List Position),
      e.position = .rotate .start ⟨true, false, false⟩ ∧ e.position ≠ .start ∧
      (filled es).worklist 4 36 = .ok before ∧ .start ∈ before ∧ other ∈ before ∧
      ((filled es).save e).1 = .upgraded ∧
      ((filled es).save e).2.worklist 4 36 = .ok after ∧ .start ∉ after ∧ other ∈ after ∧
      (filled es).worklist 4 18 = .ok low ∧ ∀ p ∈ low, p ∈ before := by
  let other : Position := ⟨0x18000000, 0x1800000000, by decide⟩
  let es : List Evaluation := [⟨.start, 16, 16, .p99, 0, []⟩, ⟨other, 16, 16, .p73, 0, []⟩]
  let e : Evaluation := ⟨.rotate .start ⟨true, false, false⟩, 36, 36, .p73, 2, []⟩
  have hs := sound_filled es
  have hstart : ∃ r ∈ (filled es).rows, Below 36 .start r := by decide +kernel
  have hother : ∃ r ∈ (filled es).rows, Below 36 other.canonical r := by decide +kernel
  obtain ⟨ps, hps, hsave⟩ := (finished_work_is_not_listed_again es).1 4 36
  have hlisted : .start ∈ ps := (mem_worklist hs hps).2 ⟨by decide, hstart⟩
  obtain ⟨hupgraded, hlists⟩ :=
    hsave .start hlisted e _ rfl rfl (by decide) (by decide)
  obtain ⟨before, after, hbefore, hafter, hgone, hsame⟩ := hlists 4 36
  obtain rfl : ps = before := Except.ok.inj (hps.symm.trans hbefore)
  have hkept : other.canonical ∈ ps := (mem_worklist hs hps).2 ⟨by decide +kernel, hother⟩
  have hstill : other.canonical ∈ ps.filter fun q => decide (q ≠ .start) :=
    List.mem_filter.2 ⟨hkept, by decide +kernel⟩
  rw [← hsame] at hstill
  obtain ⟨low, qs, hlow, hqs, hsubset⟩ :=
    (finished_work_is_not_listed_again es).2 4 18 36 (by decide)
  obtain rfl : ps = qs := Except.ok.inj (hps.symm.trans hqs)
  exact ⟨es, e, other.canonical, ps, after, low, rfl, by decide +kernel, hps, hlisted, hkept,
    hupgraded, hafter, hgone le_rfl, List.mem_of_mem_filter hstill, hlow, hsubset⟩

end Finished

end Store
end OthelloBook
