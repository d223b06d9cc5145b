import OthelloBook.Proofs.Store.WorkOrder

/-!
# The work of the whole book

The work list of the whole book finds the level of a row by steps of the stored number of discs, and
the work list of one number of discs has it from the table of levels. Both ask the same of a row, so
that the first list has the jobs of all the others, and it shows them by the priority that is stored
with the rows.
-/
namespace OthelloBook

namespace Store

variable {s : Store}

section Levels

theorem targetSteps_eq : targetSteps = [(12, 36), (20, 34)] := by decide

/-- The steps give the level that the book aims at. -/
theorem storedTarget_natCast (discs : ℕ) : storedTarget discs = Level.target discs := by
  rw [storedTarget, targetSteps_eq]
  by_cases hfew : discs ≤ 12
  · simp [hfew, Level.target]
  · by_cases hsome : discs ≤ 20
    · simp [hfew, hsome, Level.target]
    · simp [hfew, hsome, Level.target, Level.maxDiscs]

theorem storedFloor_natCast {discs : ℕ} (h : discs ≤ Level.maxDiscs) :
    storedFloor discs = (Level.floor discs (Level.target discs)).grade := by
  have hempty : (64 : ℤ) - discs = (64 - discs : ℕ) := by
    rw [Level.maxDiscs] at h
    omega
  rw [storedFloor, storedTarget_natCast, hempty, ← Nat.cast_min]
  rfl

end Levels

section Rows

variable {p : Position} {r : Row}

theorem Sound.discCount_le (hs : s.Sound) (hr : r ∈ s.rows) (hpos : r.position = p.bytes) :
    p.discCount ≤ Level.maxDiscs := by
  have hsavable := (hs.of_position hr hpos).2.1
  rw [Position.isSavable, Bool.and_eq_true, decide_eq_true_eq] at hsavable
  exact hsavable.2

theorem Sound.priority (hs : s.Sound) (hr : r ∈ s.rows) :
    r.priority = 3 * r.level + r.discCount := by
  obtain ⟨e, -, rfl⟩ := hs.kept r hr
  simp [Row.ofEvaluation, learnPriority]

theorem mem_rowsByPriority :
    r ∈ s.rowsByPriority ↔
      r ∈ s.rows ∧ r.confidence < 100 ∧ r.grade < storedFloor r.discCount := by
  simp [rowsByPriority]

/-- What the whole list asks of a row is what the list of its number of discs asks. -/
theorem mem_rowsByPriority_iff (hs : s.Sound) (hr : r ∈ s.rows) (hpos : r.position = p.bytes) :
    r ∈ s.rowsByPriority ↔ Below (Level.target p.discCount) p r := by
  rw [mem_rowsByPriority, (hs.of_position hr hpos).2.2,
    storedFloor_natCast (hs.discCount_le hr hpos), Below]
  exact ⟨fun h => ⟨hpos, h.2⟩, fun h => ⟨hr, h.2⟩⟩

theorem rowJob_of_sound (hs : s.Sound) (hr : r ∈ s.rows) (hpos : r.position = p.bytes) :
    rowJob r = .ok ⟨p, Level.target p.discCount⟩ := by
  have hle := hs.discCount_le hr hpos
  rw [Level.maxDiscs] at hle
  have hsame : (r.discCount % (1 <<< 32 : ℕ)).toNat = p.discCount := by
    rw [(hs.of_position hr hpos).2.2, Int.emod_eq_of_lt (by omega) (by omega), Int.toNat_natCast]
  rw [rowJob, hpos, Position.ofBytes_bytes, hsame]
  rfl

/-- One position comes before another one when its row has a lower priority, or the same one and is
older. -/
def MoreUrgent (s : Store) (p q : Position) : Prop :=
  ∃ a ∈ s.rows, ∃ b ∈ s.rows, a.position = p.bytes ∧ b.position = q.bytes ∧
    (3 * a.level + a.discCount < 3 * b.level + b.discCount ∨
      3 * a.level + a.discCount = 3 * b.level + b.discCount ∧ s.rows.idxOf a < s.rows.idxOf b)

theorem pairwise_rowsByPriority (hs : s.Sound) :
    s.rowsByPriority.Pairwise fun a b =>
      a.priority < b.priority ∨ a.priority = b.priority ∧ s.rows.idxOf a < s.rows.idxOf b := by
  refine (pairwise_mergeSort_stable ?_ ?_ ((pairwise_idxOf hs).filter _)).imp ?_
  · intro a b c
    simp only [decide_eq_true_eq]
    omega
  · intro a b
    simp only [Bool.or_eq_true, decide_eq_true_eq]
    omega
  · intro a b
    simp only [decide_eq_true_eq]
    omega

end Rows

section Jobs

/-- Each row of a store is read as a job, with the level that the book aims at for its position. -/
def ReadsJobs (s : Store) (jobOf : Row → Job) : Prop :=
  ∀ r ∈ s.rows, rowJob r = .ok (jobOf r) ∧ (jobOf r).position.bytes = r.position ∧
    (jobOf r).level = Level.target (jobOf r).position.discCount

theorem exists_readsJobs (hs : s.Sound) : ∃ jobOf, s.ReadsJobs jobOf := by
  have : Nonempty Job := ⟨⟨.start, 0⟩⟩
  have hread : ∀ r ∈ s.rows, ∃ j : Job, rowJob r = .ok j ∧ j.position.bytes = r.position ∧
      j.level = Level.target j.position.discCount := by
    intro r hr
    obtain ⟨e, -, hrow⟩ := hs.kept r hr
    have hpos : r.position = e.position.bytes := by rw [hrow, Row.ofEvaluation]
    exact ⟨_, rowJob_of_sound hs hr hpos, hpos.symm, rfl⟩
  choose! jobOf hjobOf using hread
  exact ⟨jobOf, hjobOf⟩

variable {jobOf : Row → Job} {j : Job}

theorem ReadsJobs.byPriority (h : s.ReadsJobs jobOf) (limit : ℕ) :
    s.byPriority limit = .ok ((s.rowsByPriority.map jobOf).take limit) := by
  have hrows : ∀ r ∈ s.rowsByPriority.take limit, rowJob r = .ok (jobOf r) := fun r hr =>
    (h r (mem_rowsByPriority.1 (List.mem_of_mem_take hr)).1).1
  rw [Store.byPriority, mapM_eq_ok_map hrows, List.map_take]
  rfl

theorem ReadsJobs.mem_map (h : s.ReadsJobs jobOf) (hs : s.Sound) :
    j ∈ s.rowsByPriority.map jobOf ↔ j.level = Level.target j.position.discCount ∧
      ∃ r ∈ s.rows, Below (Level.target j.position.discCount) j.position r := by
  rw [List.mem_map]
  constructor
  · rintro ⟨r, hlisted, rfl⟩
    have hr := (mem_rowsByPriority.1 hlisted).1
    obtain ⟨-, hpos, hlevel⟩ := h r hr
    exact ⟨hlevel, r, hr, (mem_rowsByPriority_iff hs hr hpos.symm).1 hlisted⟩
  · rintro ⟨hlevel, r, hr, hbelow⟩
    obtain ⟨-, hpos, hlevel'⟩ := h r hr
    have hsame : (jobOf r).position = j.position := Position.bytes_inj.1 (hpos.trans hbelow.1)
    refine ⟨r, (mem_rowsByPriority_iff hs hr hbelow.1).2 hbelow, ?_⟩
    rw [hsame, ← hlevel] at hlevel'
    cases j
    exact congrArg₂ Job.mk hsame hlevel'

/-- The jobs that the work lists of all numbers of discs show. -/
theorem exists_worklist_iff (hs : s.Sound) :
    (∃ discs ≤ Level.maxDiscs, ∃ ps, s.worklist discs (Level.target discs) = .ok ps ∧
      ∃ p ∈ ps, j = ⟨p, Level.target discs⟩) ↔
    j.level = Level.target j.position.discCount ∧
      ∃ r ∈ s.rows, Below (Level.target j.position.discCount) j.position r := by
  constructor
  · rintro ⟨discs, -, ps, hps, p, hp, rfl⟩
    obtain ⟨rfl, hrow⟩ := (mem_worklist hs hps).1 hp
    exact ⟨rfl, hrow⟩
  · rintro ⟨hlevel, r, hr, hbelow⟩
    obtain ⟨ps, hps, -⟩ :=
      worklist_of_sound hs j.position.discCount (Level.target j.position.discCount)
    refine ⟨_, hs.discCount_le hr hbelow.1, ps, hps, j.position, ?_, by rw [← hlevel]⟩
    exact (mem_worklist hs hps).2 ⟨rfl, r, hr, hbelow⟩

theorem nodup_rowsByPriority (hs : s.Sound) : (s.rowsByPriority.map Row.position).Nodup := by
  rw [rowsByPriority, ((List.mergeSort_perm _ _).map _).nodup_iff]
  exact hs.distinct.sublist (List.filter_sublist.map _)

/-- The two work lists have the same jobs. What is listed for the whole book is what all the lists for
a number of discs show, no position twice, by three times the level and the number of discs of the
row, and by age where these agree. It has no more jobs than there are rows, so that a limit of that
many gives all of it, and any limit gives its beginning. -/
theorem work_lists_agree (es : List Evaluation) :
    ∃ jobs : List Job,
      jobs.length ≤ (filled es).size ∧
      (∀ limit, (filled es).byPriority limit = .ok (jobs.take limit)) ∧
      (∀ j, j ∈ jobs ↔ ∃ discs ≤ Level.maxDiscs, ∃ ps,
        (filled es).worklist discs (Level.target discs) = .ok ps ∧
          ∃ p ∈ ps, j = ⟨p, Level.target discs⟩) ∧
      (jobs.map Job.position).Nodup ∧
      jobs.Pairwise fun i j => (filled es).MoreUrgent i.position j.position := by
  have hs := sound_filled es
  generalize filled es = s at hs ⊢
  obtain ⟨jobOf, hjobs⟩ := exists_readsJobs hs
  have hrows : ∀ r ∈ s.rowsByPriority, r ∈ s.rows := fun r hr => (mem_rowsByPriority.1 hr).1
  have hrow : ∀ r ∈ s.rowsByPriority, r.position = (jobOf r).position.bytes :=
    fun r hr => (hjobs r (hrows r hr)).2.1.symm
  refine ⟨s.rowsByPriority.map jobOf, ?_, hjobs.byPriority, fun j => ?_, ?_, ?_⟩
  · rw [List.length_map, rowsByPriority, List.length_mergeSort]
    exact List.length_filter_le _ _
  · rw [hjobs.mem_map hs, exists_worklist_iff hs]
  · apply List.Nodup.of_map Position.bytes
    have hbytes := List.map_congr_left hrow
    rw [List.map_map, List.map_map]
    exact (congrArg List.Nodup hbytes).mp (nodup_rowsByPriority hs)
  · rw [List.pairwise_map]
    refine (pairwise_rowsByPriority hs).imp_of_mem fun {a b} ha hb hab => ?_
    rw [hs.priority (hrows a ha), hs.priority (hrows b hb)] at hab
    exact ⟨a, hrows a ha, b, hrows b hb, hrow a ha, hrow b hb, hab⟩

end Jobs

end Store
end OthelloBook
