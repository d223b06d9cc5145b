import OthelloBook.Proofs.Store.Saves
import OthelloBook.Store.Query

/-!
# What the work list shows

The work list of a sound store can always be read. It names each position of the asked number of
discs once, and exactly those whose row is below the floor and not exact.
-/
namespace OthelloBook.Store

/-- Whether a row was searched too weakly for a level, and not exactly. -/
def Below (level : ℕ) (p : Position) (r : Row) : Prop :=
  r.position = p.bytes ∧ r.confidence < 100 ∧ r.grade < (Level.floor p.discCount level).grade

/-- A stored position is work when it has as many discs as the book searches and its row is below
the floor of the level that the book aims at. -/
def Work (s : Store) (p : Position) : Prop :=
  Level.minDiscs ≤ p.discCount ∧ p.discCount ≤ Level.maxDiscs ∧
    ∃ r ∈ s.rows, Below (Level.target p.discCount) p r

instance (level : ℕ) (p : Position) (r : Row) : Decidable (Below level p r) :=
  inferInstanceAs (Decidable (_ ∧ _ ∧ _))

instance (s : Store) (p : Position) : Decidable (s.Work p) :=
  inferInstanceAs (Decidable (_ ∧ _ ∧ _))

variable {s : Store} {discs level : ℕ}

theorem mem_rowsBelow {r : Row} :
    r ∈ s.rowsBelow discs level ↔ r ∈ s.rows ∧ r.discCount = discs ∧ r.confidence < 100 ∧
      r.grade < (Level.floor discs level).grade := by
  simp [rowsBelow, and_assoc]

theorem nodup_rowsBelow (hs : s.Sound) (discs level : ℕ) :
    ((s.rowsBelow discs level).map Row.position).Nodup := by
  rw [rowsBelow, ((List.mergeSort_perm _ _).map _).nodup_iff]
  exact hs.distinct.sublist (List.filter_sublist.map _)

theorem mapM_ofBytes {rs : List Row}
    (h : ∀ r ∈ rs, ∃ p : Position, p.isSavable = true ∧ r.position = p.bytes) :
    ∃ ps, rs.mapM (fun r => Position.ofBytes r.position) = .ok ps ∧
      ps.filter Position.isSavable = ps ∧ ps.map Position.bytes = rs.map Row.position := by
  have : Nonempty Position := ⟨.start⟩
  choose! p hp using h
  refine ⟨rs.map p, mapM_eq_ok_map fun r hr => ?_, ?_, ?_⟩
  · rw [(hp r hr).2, Position.ofBytes_bytes]
  · rw [List.filter_eq_self, List.forall_mem_map]
    exact fun r hr => (hp r hr).1
  · rw [List.map_map]
    exact List.map_congr_left fun r hr => (hp r hr).2.symm

/-- The work list of a sound store is read without a fault and keeps the order of the rows. -/
theorem worklist_of_sound (hs : s.Sound) (discs level : ℕ) :
    ∃ ps, s.worklist discs level = .ok ps ∧
      ps.map Position.bytes = (s.rowsBelow discs level).map Row.position := by
  have hrows : ∀ r ∈ s.rowsBelow discs level,
      ∃ p : Position, p.isSavable = true ∧ r.position = p.bytes := by
    intro r hr
    obtain ⟨e, he, rfl⟩ := hs.kept r (mem_rowsBelow.1 hr).1
    exact ⟨e.position, he.position_savable, rfl⟩
  obtain ⟨ps, hps, hfilter, hmap⟩ := mapM_ofBytes hrows
  refine ⟨ps, ?_, hmap⟩
  rw [worklist, hps]
  exact congrArg _ hfilter

theorem map_bytes_worklist (hs : s.Sound) {ps : List Position}
    (h : s.worklist discs level = .ok ps) :
    ps.map Position.bytes = (s.rowsBelow discs level).map Row.position := by
  obtain ⟨qs, hqs, hmap⟩ := worklist_of_sound hs discs level
  obtain rfl : ps = qs := Except.ok.inj (h.symm.trans hqs)
  exact hmap

theorem nodup_worklist (hs : s.Sound) {ps : List Position} (h : s.worklist discs level = .ok ps) :
    ps.Nodup := by
  apply List.Nodup.of_map Position.bytes
  rw [map_bytes_worklist hs h]
  exact nodup_rowsBelow hs discs level

theorem mem_worklist (hs : s.Sound) {ps : List Position} (h : s.worklist discs level = .ok ps)
    {p : Position} :
    p ∈ ps ↔ p.discCount = discs ∧ ∃ r ∈ s.rows, Below level p r := by
  have hmem : p ∈ ps ↔ p.bytes ∈ ps.map Position.bytes := by
    simp [Position.bytes_inj]
  rw [hmem, map_bytes_worklist hs h, List.mem_map]
  constructor
  · rintro ⟨r, hbelow, hpos⟩
    obtain ⟨hr, hdiscs, hconf, hgrade⟩ := mem_rowsBelow.1 hbelow
    obtain ⟨-, -, hcount⟩ := hs.of_position hr hpos
    obtain rfl : p.discCount = discs := Int.ofNat.inj (hcount.symm.trans hdiscs)
    exact ⟨rfl, r, hr, hpos, hconf, hgrade⟩
  · rintro ⟨rfl, r, hr, hpos, hconf, hgrade⟩
    obtain ⟨-, -, hcount⟩ := hs.of_position hr hpos
    exact ⟨r, mem_rowsBelow.2 ⟨hr, hcount, hconf, hgrade⟩, hpos⟩

/-- The positions of the work list are canonical and can be kept. -/
theorem kept_of_mem_worklist (hs : s.Sound) {ps : List Position}
    (h : s.worklist discs level = .ok ps) {p : Position} (hp : p ∈ ps) :
    p.canonical = p ∧ p.isSavable = true := by
  obtain ⟨-, r, hr, hpos, -⟩ := (mem_worklist hs h).1 hp
  obtain ⟨hcanonical, hsavable, -⟩ := hs.of_position hr hpos
  exact ⟨hcanonical, hsavable⟩

theorem Work.isSavable (hs : s.Sound) {p : Position} (h : s.Work p) : p.isSavable = true := by
  obtain ⟨-, -, r, hr, hpos, -⟩ := h
  exact (hs.of_position hr hpos).2.1

/-- An evaluation that is a finished search at the level that the book aims at, or a better one. -/
def Finishes (e : Evaluation) : Prop :=
  Level.minimum ≤ e.level ∧
    ¬e.strength < Level.floor e.position.discCount (Level.target e.position.discCount)

/-- After a row at or above the floor of a level is put, no row of its position is below it. -/
theorem not_below_of_put {e : Evaluation}
    (he : ¬e.strength < Level.floor e.position.discCount level) {q : Row}
    (hq : q ∈ (s.put (.ofEvaluation e)).2.rows) : ¬Below level e.position q := by
  rintro ⟨hpos, -, hgrade⟩
  rw [← Strength.grade_lt_grade_iff] at he
  rcases mem_put hq with ⟨-, hrep⟩ | rfl | ⟨o, -, -, rfl⟩
  · have hlt := trans_trichotomous_right hgrade he
    rw [replaces_iff.2 ⟨hpos, hlt⟩] at hrep
    cases hrep
  · exact he hgrade
  · exact he hgrade

/-- A row at or above the floor makes no new work, and its position is no longer work. -/
theorem Work.of_put {e : Evaluation} (he : Finishes e) {p : Position}
    (h : (s.put (.ofEvaluation e)).2.Work p) : s.Work p ∧ p ≠ e.position := by
  obtain ⟨hmin, hmax, q, hq, hbelow⟩ := h
  have hne : p ≠ e.position := by
    rintro rfl
    exact not_below_of_put he.2 hq hbelow
  refine ⟨⟨hmin, hmax, q, ?_, hbelow⟩, hne⟩
  rcases mem_put hq with ⟨hq, -⟩ | rfl | ⟨o, -, -, rfl⟩
  · exact hq
  · exact absurd (Position.bytes_inj.1 hbelow.1.symm) hne
  · exact absurd (Position.bytes_inj.1 hbelow.1.symm) hne

/-- Saving a finished search makes no new work, and its position is no longer work. -/
theorem Work.of_save (hs : s.Sound) {e : Evaluation} (he : Finishes e) {p : Position}
    (h : (s.save e).2.Work p) : s.Work p ∧ p ≠ e.position.canonical := by
  rw [save] at h
  by_cases hsave : e.isSavable = true
  · rw [if_pos hsave] at h
    have hcanonical : Finishes e.canonicalize := by
      rw [Finishes, Evaluation.level_canonicalize, Evaluation.strength_canonicalize,
        Evaluation.position_canonicalize, Position.discCount_canonical]
      exact he
    rw [← Evaluation.position_canonicalize]
    exact h.of_put hcanonical
  · rw [if_neg hsave] at h
    refine ⟨h, ?_⟩
    intro hp
    apply hsave
    have hwork := h.isSavable hs
    rw [hp, Position.isSavable_canonical] at hwork
    rw [Evaluation.isSavable, hwork, Bool.and_true, decide_eq_true_eq]
    exact he.1

end OthelloBook.Store
