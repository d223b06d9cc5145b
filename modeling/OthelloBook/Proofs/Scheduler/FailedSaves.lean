import OthelloBook.Proofs.Scheduler.Consistency

/-!
# Results that cannot be saved

A result is noted with its client before it is saved. When the save then fails, the result counts
for the client all the same, and the job that it was for is neither held nor in the queue any more.
The job is not lost to the book: it comes back with the work at its number of discs when that is
next loaded, unless somebody else has done it meanwhile.
-/
namespace OthelloBook.Scheduler

section Disturbances

variable {α : Type} {request : Store → Except StoreError α × Store}

/-- A request that fails only where it is disturbed leaves nothing in the store but the saves of
others. -/
theorem exists_saveAll_of_disturb_error (hrequest : ∀ s, ∃ a, (request s).1 = .ok a)
    {st : Store × List Disturbance} {x : StoreError} (h : (disturb request st).1 = .error x) :
    ∃ es, (disturb request st).2.1 = (st.1.saveAll es).2 := by
  obtain ⟨s, _ | ⟨d, ds⟩⟩ := st
  · obtain ⟨a, ha⟩ := hrequest s
    cases ha.symm.trans h
  · rw [disturb] at h ⊢
    cases hd : d.failure with
    | none =>
      obtain ⟨a, ha⟩ := hrequest (s.saveAll d.saves).2
      simp only [hd, ha] at h
      cases h
    | some e => exact ⟨d.saves, rfl⟩

end Disturbances

section Submit

variable {σ : Type} {storage : Storage σ} {s : Scheduler} {st : σ} {id : Identity} {c : Client}
  {e : Evaluation} {now : Instant}

theorem mem_jobs_of_client? (hc : s.client? id = some c) {j : Job} (hj : c.job = some j) :
    j ∈ s.jobs :=
  mem_jobs.2 (.inl (List.mem_filterMap.2 ⟨c, mem_of_client? hc, hj⟩))

theorem submit_of_client? (hc : s.client? id = some c) :
    s.submit storage id e now st =
      ((storage.save e st).1.mapError .store, s.modifyClient id fun c => c.done e now,
        (storage.save e st).2) := by
  rw [submit, hc]

/-- Of the jobs that there were, a result takes away the one that its client held for its position,
and no other. -/
theorem mem_jobs_done (hs : s.Consistent) (hc : s.client? id = some c) {j : Job} (hj : j ∈ s.jobs) :
    j ∈ (s.modifyClient id fun c => c.done e now).jobs ↔
      ¬(c.job = some j ∧ j.position = e.position.canonical) := by
  obtain ⟨finished, hfinished, hperm⟩ := jobs_done hs.ids hc e now
  have hnodup := hperm.nodup_iff.1 hs.jobs_nodup
  rw [← hfinished]
  constructor
  · exact fun hkept hdone => List.disjoint_of_nodup_append hnodup hdone hkept
  · exact (List.mem_append.1 (hperm.mem_iff.1 hj)).resolve_left

/-- Nobody holds the position of a job that is done. -/
theorem unheld_of_done (hs : s.Consistent) (hc : s.client? id = some c) {j : Job}
    (hj : c.job = some j) (hposition : j.position = e.position.canonical) :
    j.position ∉ (s.modifyClient id fun c => c.done e now).held := by
  obtain ⟨finished, hfinished, hperm⟩ := jobs_done hs.ids hc e now
  have hpositions := (hperm.map Job.position).nodup_iff.1 hs.positions
  rw [List.map_append] at hpositions
  intro hheld
  obtain ⟨i, hi, hsame⟩ := mem_held.1 hheld
  have hleft : i.position ∈ (s.modifyClient id fun c => c.done e now).jobs.map Job.position :=
    List.mem_map_of_mem (mem_jobs.2 (.inl hi))
  have hdone : j.position ∈ finished.map Job.position :=
    List.mem_map_of_mem ((hfinished j).2 ⟨hj, hposition⟩)
  exact List.disjoint_of_nodup_append hpositions hdone (hsame ▸ hleft)

end Submit

section Loading

variable {σ : Type} {w : Surroundings σ} {s : Scheduler} {st : σ}

/-- A proper job that no client holds is loaded whenever the book has it as work. -/
theorem mem_loadJobs (hw : w.Sound) (hst : (w.book st).Sound) {j : Job} (hj : j.Proper)
    (hheld : j.position ∉ s.held) {js : List Job}
    (hjs : (loadJobs w.storage s j.position.discCount st).1 = .ok js) :
    j ∈ js ↔ (w.book (loadJobs w.storage s j.position.discCount st).2).Work j.position := by
  have hsound := sound_loadJobs hw hst s j.position.discCount
  change Except.map _ (w.storage.worklist _ _ st).1 = .ok js at hjs
  cases hanswer : (w.storage.worklist j.position.discCount
      (Level.target j.position.discCount) st).1 with
  | error x =>
    rw [hanswer] at hjs
    cases hjs
  | ok ps =>
    rw [hanswer] at hjs
    obtain rfl := Except.ok.inj hjs
    have hlisted := Store.mem_worklist hsound (hw.answer hanswer) (p := j.position)
    constructor
    · intro hmem
      obtain ⟨p, hp, hpj⟩ := List.mem_map.1 hmem
      have hposition : p = j.position := congrArg Job.position hpj
      exact ⟨hj.le_discs, hj.discs_le, (hlisted.1 (hposition ▸ (List.mem_filter.1 hp).1)).2⟩
    · rintro ⟨-, -, hrow⟩
      refine List.mem_map.2 ⟨j.position, List.mem_filter.2 ⟨hlisted.2 ⟨rfl, hrow⟩, ?_⟩, ?_⟩
      · simpa using hheld
      · rw [← hj.level]

end Loading

/-- A result that cannot be saved is answered with the fault of the store, which holds nothing of
it. The queue and the cursor stay as they are, the result counts for its client, and of all jobs only
the one that the client held for this position is dropped. Whatever others save meanwhile, the
dropped job comes back when its number of discs is loaded, exactly if the book has it as work. -/
theorem failed_save_drops_the_finished_job {timing : Timing} {s s' : Scheduler}
    {st st' : Store × List Disturbance} (h : Reachable contended timing s st) {id : Identity}
    {c : Client} (hc : s.client? id = some c) {e : Evaluation} {now : Instant} {x : SchedulerError}
    (hsubmit : s.submit disturbedStorage id e now st = (.error x, s', st')) :
    (∃ fault es, x = .store fault ∧ st'.1 = (st.1.saveAll es).2) ∧
      (s'.queue = s.queue ∧ s'.cursor = s.cursor ∧ s'.client? id = some (c.done e now)) ∧
      (∀ j ∈ s.jobs, j ∈ s'.jobs ↔ ¬(c.job = some j ∧ j.position = e.position.canonical)) ∧
      ∀ j, c.job = some j → j.position = e.position.canonical → ∀ later later' js,
        contended.meanwhile st' later →
          loadJobs disturbedStorage s' j.position.discCount later = (.ok js, later') →
            (j ∈ js ↔ later'.1.Work j.position) := by
  obtain ⟨hs, -⟩ := holds_of_reachable sound_contended h
  have hafter := holds_of_reachable sound_contended (h.submit id (fun _ => trivial) now (e := e))
  change Holds contended (s.submit disturbedStorage id e now st).2 at hafter
  rw [hsubmit] at hafter
  rw [submit_of_client? hc, Prod.mk.injEq, Prod.mk.injEq] at hsubmit
  obtain ⟨hanswer, rfl, rfl⟩ := hsubmit
  refine ⟨?_, ⟨rfl, rfl, client?_modifyClient_self (fun _ => rfl) hc⟩,
    fun j hj => mem_jobs_done hs hc hj, ?_⟩
  · cases hsave : (disturbedStorage.save e st).1 with
    | ok outcome =>
      rw [hsave] at hanswer
      cases hanswer
    | error fault =>
      rw [hsave] at hanswer
      obtain ⟨es, hes⟩ := exists_saveAll_of_disturb_error (fun _ => ⟨_, rfl⟩) hsave
      exact ⟨fault, es, (Except.error.inj hanswer).symm, hes⟩
  · intro j hj hposition later later' js hmeanwhile hload
    have hlater : later.1.Sound := sound_contended.meanwhile hmeanwhile hafter.2
    have hmem := mem_loadJobs sound_contended hlater (hs.proper j (mem_jobs_of_client? hc hj))
      (unheld_of_done hs hc hj hposition) (congrArg Prod.fst hload)
    change j ∈ js ↔ (loadJobs disturbedStorage _ _ later).2.1.Work j.position at hmem
    rwa [hload] at hmem

/-- The only client works on the beginning of the game, and its result is met by a fault: nobody has
the job any more, and the result counts. -/
theorem failed_save_drops_the_first_job :
    ∃ s st c e, Reachable contended {} s st ∧ s.client? ⟨0⟩ = some c ∧
      c.job = some ⟨.start, Level.target 4⟩ ∧
        (s.submit disturbedStorage ⟨0⟩ e 2 st).1 = .error (.store .database) ∧
          (s.submit disturbedStorage ⟨0⟩ e 2 st).2.1.jobs = [] := by
  have h₀ : Reachable contended {} (start {})
      (Store.filled [⟨.start, 16, 16, .p73, 0, []⟩], [⟨[], none⟩, ⟨[], some .database⟩]) :=
    .start ⟨_, rfl⟩
  have hnew : (start {}).client? ⟨0⟩ = none := rfl
  have h₁ := (h₀.register hnew ⟨"first", ""⟩ 0).nextJob ⟨0⟩ 1
  exact ⟨_, _, ⟨⟨0⟩, ⟨"first", ""⟩, 1, some ⟨.start, Level.target 4⟩, 0⟩,
    ⟨.start, 36, 36, .p73, 0, []⟩, h₁, by decide +kernel, rfl, by decide +kernel,
    by decide +kernel⟩

end OthelloBook.Scheduler
