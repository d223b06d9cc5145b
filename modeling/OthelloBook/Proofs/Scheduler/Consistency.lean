import OthelloBook.Proofs.Scheduler.Requests
import OthelloBook.Proofs.Scheduler.Runs

/-!
# No job is given out twice

In every state of a run the positions of the jobs are distinct, be they held or waiting, and each
job is one that the book wants done. A step of the scheduler either rearranges the jobs, or drops
some of them, or replaces those that wait by the work of a sound book that nobody holds.
-/
namespace OthelloBook

/-- A job for a canonical position that the book searches, at the level that it aims at. -/
structure Job.Proper (j : Job) : Prop where
  canonical : j.position.canonical = j.position
  hasMoves : j.position.hasMoves = true
  le_discs : Level.minDiscs ≤ j.position.discCount
  discs_le : j.position.discCount ≤ Level.maxDiscs
  level : j.level = Level.target j.position.discCount

namespace Scheduler

structure Consistent (s : Scheduler) : Prop where
  ids : (s.clients.map Client.id).Nodup
  positions : (s.jobs.map Job.position).Nodup
  proper : ∀ j ∈ s.jobs, j.Proper
  cursor : ∀ c, s.cursor = some c → Level.minDiscs ≤ c ∧ c ≤ pastLast

/-- What may become the queue: proper jobs for distinct positions that nobody holds. -/
structure Loadable (s : Scheduler) (js : List Job) : Prop where
  positions : (js.map Job.position).Nodup
  unheld : ∀ j ∈ js, j.position ∉ s.held
  proper : ∀ j ∈ js, j.Proper

namespace Consistent

variable {s s' : Scheduler}

theorem jobs_nodup (h : s.Consistent) : s.jobs.Nodup := h.positions.of_map

theorem unheld_of_mem_queue (h : s.Consistent) {j : Job} (hj : j ∈ s.queue) : j.position ∉ s.held := by
  have hpositions := h.positions
  rw [jobs, List.map_append, ← held_eq] at hpositions
  exact fun hheld => List.disjoint_of_nodup_append hpositions hheld (List.mem_map_of_mem hj)

theorem start (timing : Timing) : (Scheduler.start timing).Consistent := by
  constructor <;> simp [Scheduler.start, jobs, heldJobs]

theorem of_subperm (h : s.Consistent) (hids : (s'.clients.map Client.id).Nodup)
    (hjobs : s'.jobs.Subperm s.jobs) (hcursor : s'.cursor = s.cursor) : s'.Consistent where
  ids := hids
  positions := by
    obtain ⟨js, hperm, hsub⟩ := hjobs
    exact (hperm.map Job.position).nodup_iff.1 (h.positions.sublist (hsub.map Job.position))
  proper j hj := h.proper j (hjobs.subset hj)
  cursor := hcursor ▸ h.cursor

theorem load (h : s.Consistent) {js : List Job} (hjs : s.Loadable js) {discs : ℕ}
    (hmin : Level.minDiscs ≤ discs) (hmax : discs ≤ pastLast) :
    ({ s with cursor := some discs, queue := js } : Scheduler).Consistent where
  ids := h.ids
  positions := by
    change ((s.heldJobs ++ js).map Job.position).Nodup
    rw [List.map_append, ← held_eq]
    refine List.Nodup.append ?_ hjs.positions ?_
    · rw [held_eq]
      exact h.positions.sublist ((List.sublist_append_left _ _).map _)
    · intro p hp hjs'
      obtain ⟨j, hj, rfl⟩ := List.mem_map.1 hjs'
      exact hjs.unheld j hj hp
  proper := by
    intro j hj
    rcases mem_jobs.1 hj with hj | hj
    · exact h.proper j (mem_jobs.2 (.inl hj))
    · exact hjs.proper j hj
  cursor := by
    rintro c ⟨⟩
    exact ⟨hmin, hmax⟩

theorem move (h : s.Consistent) {discs : ℕ} (hmin : Level.minDiscs ≤ discs)
    (hmax : discs ≤ pastLast) : ({ s with cursor := some discs } : Scheduler).Consistent :=
  { ids := h.ids, positions := h.positions, proper := h.proper,
    cursor := by rintro c ⟨⟩; exact ⟨hmin, hmax⟩ }

end Consistent

/-- The invariant of a run: the scheduler is consistent and the book is sound. -/
def Holds {σ : Type} (w : Surroundings σ) (x : Scheduler × σ) : Prop :=
  x.1.Consistent ∧ (w.book x.2).Sound

section Loading

variable {σ : Type} {w : Surroundings σ} {s : Scheduler} {st : σ} {discs : ℕ} {ds : List ℕ}

theorem loadable_of_worklist {b : Store} (hb : b.Sound) {ps : List Position}
    (hps : b.worklist discs (Level.target discs) = .ok ps) (hmin : Level.minDiscs ≤ discs)
    (hmax : discs ≤ Level.maxDiscs) :
    s.Loadable ((ps.filter fun p => p ∉ s.held).map fun p => ⟨p, Level.target discs⟩) where
  positions := by
    rw [List.map_map]
    exact ((Store.nodup_worklist hb hps).filter _).map_on (by simp)
  unheld := by
    intro j hj
    obtain ⟨p, hp, rfl⟩ := List.mem_map.1 hj
    simpa using (List.mem_filter.1 hp).2
  proper := by
    intro j hj
    obtain ⟨p, hp, rfl⟩ := List.mem_map.1 hj
    have hmem := (List.mem_filter.1 hp).1
    obtain ⟨rfl, -⟩ := (Store.mem_worklist hb hps).1 hmem
    obtain ⟨hcanonical, hsavable⟩ := Store.kept_of_mem_worklist hb hps hmem
    rw [Position.isSavable, Bool.and_eq_true] at hsavable
    exact ⟨hcanonical, hsavable.1, hmin, hmax, rfl⟩

theorem sound_loadJobs (hw : w.Sound) (hst : (w.book st).Sound) (s : Scheduler) (discs : ℕ) :
    (w.book (loadJobs w.storage s discs st).2).Sound :=
  hw.worklist discs (Level.target discs) hst

theorem loadable_of_loadJobs (hw : w.Sound) (hst : (w.book st).Sound) (s : Scheduler)
    (js : List Job) (hmin : Level.minDiscs ≤ discs) (hmax : discs ≤ Level.maxDiscs)
    (hjs : (loadJobs w.storage s discs st).1 = .ok js) : s.Loadable js := by
  have hsound := hw.worklist discs (Level.target discs) hst
  change Except.map _ (w.storage.worklist discs (Level.target discs) st).1 = .ok js at hjs
  cases hanswer : (w.storage.worklist discs (Level.target discs) st).1 with
  | error e =>
    rw [hanswer] at hjs
    cases hjs
  | ok ps =>
    rw [hanswer] at hjs
    obtain rfl := Except.ok.inj hjs
    exact loadable_of_worklist hsound (hw.answer hanswer) hmin hmax

def Searched (s : Scheduler) (ds : List ℕ) :
    Except (ℕ × StoreError) (Option (ℕ × List Job)) → Prop
  | .error (discs, _) => discs ∈ ds
  | .ok none => True
  | .ok (some (discs, js)) => discs ∈ ds ∧ s.Loadable js

theorem searched_search (hw : w.Sound)
    (hds : ∀ d ∈ ds, Level.minDiscs ≤ d ∧ d ≤ Level.maxDiscs) (hst : (w.book st).Sound) :
    s.Searched ds (search w.storage s ds st).1 ∧ (w.book (search w.storage s ds st).2).Sound := by
  induction ds generalizing st with
  | nil => exact ⟨trivial, hst⟩
  | cons discs rest ih =>
    obtain ⟨hmin, hmax⟩ := hds discs List.mem_cons_self
    have hnext := sound_loadJobs hw hst s discs
    have hload := fun js => loadable_of_loadJobs hw hst s js hmin hmax
    rw [search]
    generalize loadJobs w.storage s discs st = loaded at hnext hload ⊢
    obtain ⟨e | (_ | ⟨j, js⟩), st'⟩ := loaded
    · exact ⟨List.mem_cons_self, hnext⟩
    · obtain ⟨hfound, hsound⟩ := ih (fun d hd => hds d (List.mem_cons_of_mem _ hd)) hnext
      refine ⟨?_, hsound⟩
      dsimp only at hfound ⊢
      generalize (search w.storage s rest st').1 = found at hfound ⊢
      obtain ⟨d, e⟩ | (_ | ⟨d, js⟩) := found
      · exact List.mem_cons_of_mem _ hfound
      · trivial
      · exact ⟨List.mem_cons_of_mem _ hfound.1, hfound.2⟩
    · exact ⟨⟨List.mem_cons_self, hload _ rfl⟩, hnext⟩

theorem holds_rewind (hw : w.Sound) (hds : ∀ d ∈ ds, Level.minDiscs ≤ d ∧ d ≤ Level.maxDiscs)
    (h : Holds w (s, st)) : Holds w (rewind w.storage ds s st).2 := by
  obtain ⟨hs, hst⟩ := h
  obtain ⟨hfound, hsound⟩ := searched_search (s := s) hw hds hst
  rw [rewind_eq_search]
  generalize search w.storage s ds st = found at hfound hsound ⊢
  obtain ⟨⟨d, e⟩ | (_ | ⟨d, js⟩), st'⟩ := found
  · exact ⟨hs, hsound⟩
  · exact ⟨hs, hsound⟩
  · obtain ⟨hmin, hmax⟩ := hds d hfound.1
    exact ⟨hs.load hfound.2 hmin (Nat.le_succ_of_le hmax), hsound⟩

theorem holds_fill (hw : w.Sound) (hds : ∀ d ∈ ds, Level.minDiscs ≤ d ∧ d ≤ Level.maxDiscs)
    (h : Holds w (s, st)) : Holds w (fill w.storage ds s st).2 := by
  obtain ⟨hs, hst⟩ := h
  obtain ⟨hfound, hsound⟩ := searched_search (s := s) hw hds hst
  rw [fill_eq_search]
  generalize search w.storage s ds st = found at hfound hsound ⊢
  obtain ⟨⟨d, e⟩ | (_ | ⟨d, js⟩), st'⟩ := found
  · obtain ⟨hmin, hmax⟩ := hds d hfound
    exact ⟨hs.move hmin (Nat.le_succ_of_le hmax), hsound⟩
  · exact ⟨hs.move (by decide) le_rfl, hsound⟩
  · obtain ⟨hmin, hmax⟩ := hds d hfound.1
    exact ⟨hs.load hfound.2 hmin (Nat.le_succ_of_le hmax), hsound⟩

theorem mem_discsFrom {first past d : ℕ} : d ∈ discsFrom first past ↔ first ≤ d ∧ d < past := by
  rw [discsFrom, List.mem_range'_1]
  omega

theorem holds_rescan (hw : w.Sound) (h : Holds w (s, st)) (now : Instant) :
    Holds w (rescan w.storage s now st).2 := by
  rw [rescan]
  split
  · have hnow : Holds w ({ s with lastRescan := some now }, st) :=
      ⟨⟨h.1.ids, h.1.positions, h.1.proper, h.1.cursor⟩, h.2⟩
    dsimp only
    split
    · exact hnow
    · refine holds_rewind hw (fun d hd => ?_) hnow
      rw [mem_discsFrom, lt_min_iff] at hd
      exact ⟨hd.1, Nat.le_of_lt_succ hd.2.2⟩
  · exact h

theorem minDiscs_le_nextDiscs (s : Scheduler) : Level.minDiscs ≤ s.nextDiscs := by
  rw [nextDiscs]
  split
  · exact le_rfl
  · exact le_max_right _ _

theorem holds_refill (hw : w.Sound) (h : Holds w (s, st)) :
    Holds w (s.refill w.storage st).2 := by
  rw [refill]
  split
  · exact h
  · refine holds_fill hw (fun d hd => ?_) h
    rw [mem_discsFrom] at hd
    exact ⟨(minDiscs_le_nextDiscs s).trans hd.1, Nat.le_of_lt_succ hd.2⟩

end Loading

section Steps

variable {σ : Type} {w : Surroundings σ} {s : Scheduler} {st : σ}

theorem Consistent.touch (h : s.Consistent) (id : Identity) (now : Instant) :
    (s.touch id now).Consistent := by
  refine h.of_subperm ?_ ?_ rfl
  · rw [ids_touch]
    exact h.ids
  · rw [jobs_touch]

theorem Consistent.register (h : s.Consistent) {id : Identity} (hid : s.client? id = none)
    (introduction : Introduction) (now : Instant) :
    (s.register id introduction now).Consistent := by
  refine h.of_subperm (nodup_ids_register h.ids hid introduction now) ?_ rfl
  rw [jobs_register]

theorem Consistent.prune (h : s.Consistent) (now : Instant) : (s.prune now).Consistent := by
  refine h.of_subperm ?_ (jobs_prune h.jobs_nodup).subperm ?_
  · exact h.ids.sublist (clients_prune.map Client.id)
  · rw [cursor_prune]

theorem Consistent.done (h : s.Consistent) {id : Identity} {c : Client}
    (hc : s.client? id = some c) (e : Evaluation) (now : Instant) :
    (s.modifyClient id fun c => c.done e now).Consistent := by
  refine h.of_subperm ?_ ?_ rfl
  · rw [ids_modifyClient]
    · exact h.ids
    · exact fun _ => rfl
  · obtain ⟨finished, -, hperm⟩ := jobs_done h.ids hc e now
    exact (List.sublist_append_right finished _).subperm.trans hperm.symm.subperm

theorem Consistent.reorder (h : s.Consistent) {clients : List Client}
    (hperm : clients.Perm s.clients) : ({ s with clients := clients } : Scheduler).Consistent :=
  h.of_subperm ((hperm.map Client.id).nodup_iff.2 h.ids)
    ((hperm.filterMap Client.job).append_right s.queue).subperm rfl

theorem holds_prepare (hw : w.Sound) (h : Holds w (s, st)) (id : Identity) (now : Instant) :
    Holds w (s.prepare w.storage id now st).2 := by
  have hpruned : Holds w ((s.touch id now).prune now, st) := ⟨(h.1.touch id now).prune now, h.2⟩
  have hrescan := holds_rescan hw hpruned now
  rw [prepare]
  generalize rescan w.storage ((s.touch id now).prune now) now st = rescanned at hrescan ⊢
  obtain ⟨e | u, s', st'⟩ := rescanned
  · exact hrescan
  · exact holds_refill hw hrescan

theorem jobs_tail (s : Scheduler) :
    (s.queue.head?.toList ++ ({ s with queue := s.queue.tail } : Scheduler).jobs).Perm s.jobs := by
  have hqueue : s.queue.head?.toList ++ s.queue.tail = s.queue := by cases s.queue <;> rfl
  have hperm := List.perm_append_comm_assoc s.queue.head?.toList s.heldJobs s.queue.tail
  rwa [hqueue] at hperm

/-- The job that is handed out stays one of the jobs, and so does the one that is given back. -/
theorem jobs_handOut (hs : s.Consistent) {id : Identity} {c : Client}
    (hc : s.client? id = some c) : (s.handOut id).2.jobs.Perm s.jobs := by
  have htail := jobs_tail s
  have hnodup := htail.nodup_iff.2 hs.jobs_nodup
  simp only [handOut, hc]
  exact (jobs_assign (s := { s with queue := s.queue.tail }) hs.ids hc hnodup).trans htail

theorem queue_handOut (hs : s.Consistent) {id : Identity} {c : Client}
    (hc : s.client? id = some c) : (s.handOut id).2.queue = c.job.toList ++ s.queue.tail := by
  have hnodup := (jobs_tail s).nodup_iff.2 hs.jobs_nodup
  simp only [handOut, hc]
  exact queue_assign (s := { s with queue := s.queue.tail }) (mem_of_client? hc) hnodup

theorem consistent_handOut (hs : s.Consistent) (id : Identity) : (s.handOut id).2.Consistent := by
  cases hc : s.client? id with
  | none =>
    simp only [handOut, hc]
    refine hs.of_subperm hs.ids ?_ rfl
    exact (List.sublist_append_right _ _).subperm.trans (jobs_tail s).subperm
  | some c =>
    refine hs.of_subperm ?_ (jobs_handOut hs hc).subperm ?_
    · simp only [handOut, hc]
      rw [ids_assign]
      exact hs.ids
    · simp only [handOut, hc]
      rw [cursor_assign]

theorem holds_nextJob (hw : w.Sound) (h : Holds w (s, st)) (id : Identity) (now : Instant) :
    Holds w (s.nextJob w.storage id now st).2 := by
  have hprepared := holds_prepare hw h id now
  rw [nextJob_eq_handOut]
  cases s.client? id with
  | none => exact h
  | some c =>
    generalize s.prepare w.storage id now st = prepared at hprepared ⊢
    obtain ⟨e | u, s', st'⟩ := prepared
    · exact hprepared
    · exact ⟨consistent_handOut hprepared.1 id, hprepared.2⟩

theorem holds_submit (hw : w.Sound) (h : Holds w (s, st)) (id : Identity) (e : Evaluation)
    (now : Instant) : Holds w (s.submit w.storage id e now st).2 := by
  rw [submit]
  cases hc : s.client? id with
  | none => exact h
  | some c => exact ⟨h.1.done hc e now, hw.save e h.2⟩

/-- A run keeps the invariant in surroundings in which the book stays sound. -/
theorem holds_of_reachable (hw : w.Sound) {timing : Timing} (h : Reachable w timing s st) :
    Holds w (s, st) := by
  induction h with
  | start hst => exact ⟨.start timing, hw.initial hst⟩
  | register h hid introduction now ih => exact ⟨ih.1.register hid introduction now, ih.2⟩
  | heartbeat h hs ih =>
    rw [eq_touch_of_heartbeat hs]
    exact ⟨ih.1.touch _ _, ih.2⟩
  | nextJob h id now ih => exact holds_nextJob hw ih id now
  | submit h id he now ih => exact holds_submit hw ih id _ now
  | meanwhile h hst ih => exact ⟨ih.1, hw.meanwhile hst ih.2⟩
  | reorder h hperm ih => exact ⟨ih.1.reorder hperm, ih.2⟩

theorem timing_of_reachable {timing : Timing} (h : Reachable w timing s st) : s.timing = timing := by
  induction h with
  | start => rfl
  | register h hid introduction now ih => exact ih
  | heartbeat h hs ih =>
    rw [eq_touch_of_heartbeat hs]
    exact ih
  | nextJob h id now ih => exact (timing_nextJob w.storage _ id now _).trans ih
  | @submit s st h id e he now ih =>
    rw [submit]
    cases s.client? id with
    | none => exact ih
    | some c => exact ih
  | meanwhile h hst ih => exact ih
  | reorder h hperm ih => exact ih

end Steps

/-- However others write to the book, and whichever requests to it fail: no position is held by two
clients, held and in the queue, or twice in the queue; all jobs are for canonical positions with a
legal move and a number of discs that the book searches, at the level that it aims at; and the
cursor stays between the first number of discs and the one after the last. -/
theorem no_job_is_given_out_twice {timing : Timing} {s : Scheduler}
    {st : Store × List Disturbance} (h : Reachable contended timing s st) :
    s.held.Nodup ∧ (∀ j ∈ s.queue, j.position ∉ s.held) ∧ (s.queue.map Job.position).Nodup ∧
      (∀ j, (j ∈ s.queue ∨ ∃ c ∈ s.clients, c.job = some j) →
        j.position.canonical = j.position ∧ j.position.hasMoves = true ∧
          4 ≤ j.position.discCount ∧ j.position.discCount ≤ 30 ∧
          j.level = Level.target j.position.discCount) ∧
      ∀ c, s.cursor = some c → 4 ≤ c ∧ c ≤ 31 := by
  obtain ⟨hs, -⟩ := holds_of_reachable sound_contended h
  have hpositions := hs.positions
  rw [jobs, List.map_append, ← held_eq] at hpositions
  refine ⟨hpositions.of_append_left, fun j hj => hs.unheld_of_mem_queue hj, hpositions.of_append_right,
    ?_, hs.cursor⟩
  · intro j hj
    have hmem : j ∈ s.jobs := by
      rw [mem_jobs, heldJobs, List.mem_filterMap]
      exact hj.symm
    obtain ⟨hcanonical, hmoves, hmin, hmax, hlevel⟩ := hs.proper j hmem
    exact ⟨hcanonical, hmoves, hmin, hmax, hlevel⟩

/-- One client holds the first position, and the request of another fails when the cursor is at five
discs. -/
theorem no_job_is_given_out_twice_failed_read :
    ∃ s st, Reachable contended {} s st ∧ s.held = [.start] ∧ s.cursor = some 5 ∧
      s.held.Nodup ∧ ∀ j ∈ s.queue, j.position ∉ s.held := by
  have h₀ : Reachable contended {} (start {})
      (Store.filled [⟨.start, 16, 16, .p73, 0, []⟩], [⟨[], none⟩, ⟨[], some .database⟩]) :=
    .start ⟨_, rfl⟩
  have hfirst : (start {}).client? ⟨0⟩ = none := rfl
  have h₁ := h₀.register hfirst ⟨"first", ""⟩ 0
  have hsecond : ((start {}).register ⟨0⟩ ⟨"first", ""⟩ 0).client? ⟨1⟩ = none := rfl
  have h₂ := h₁.register hsecond ⟨"second", ""⟩ 0
  have h₃ := (h₂.nextJob ⟨0⟩ 1).nextJob ⟨1⟩ 2
  obtain ⟨hnodup, hqueue, -⟩ := no_job_is_given_out_twice h₃
  exact ⟨_, _, h₃, by decide +kernel, by decide +kernel, hnodup, hqueue⟩

end Scheduler
end OthelloBook
