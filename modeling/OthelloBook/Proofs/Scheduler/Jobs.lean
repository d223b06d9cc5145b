import OthelloBook.Scheduler.Assignment
import Mathlib.Tactic
import Mathlib.Data.List.Perm.Subperm

/-!
# Where the jobs are

A job is held by a client or waits in the queue. What is said here of each request is what it does
to the list of these jobs: to be heard of leaves it as it is, a sweep moves jobs from clients to the
queue, and an assignment swaps the job of a client for another.
-/
namespace OthelloBook.Scheduler

def heldJobs (s : Scheduler) : List Job := s.clients.filterMap Client.job

def jobs (s : Scheduler) : List Job := s.heldJobs ++ s.queue

theorem held_eq (s : Scheduler) : s.held = s.heldJobs.map Job.position := by
  rw [heldJobs, List.map_filterMap]
  rfl

theorem mem_held {s : Scheduler} {p : Position} :
    p ∈ s.held ↔ ∃ j ∈ s.heldJobs, j.position = p := by
  rw [held_eq, List.mem_map]

theorem mem_jobs {s : Scheduler} {j : Job} : j ∈ s.jobs ↔ j ∈ s.heldJobs ∨ j ∈ s.queue := by
  rw [jobs, List.mem_append]

variable {s : Scheduler} {id : Identity} {now : Instant} {c : Client}

section Clients

theorem id_of_client? (h : s.client? id = some c) : c.id = id := by
  simpa using List.find?_some h

theorem mem_of_client? (h : s.client? id = some c) : c ∈ s.clients := List.mem_of_find?_eq_some h

theorem client?_eq_none_iff : s.client? id = none ↔ id ∉ s.clients.map Client.id := by
  simp [client?]

theorem client?_of_mem (hids : (s.clients.map Client.id).Nodup) (hc : c ∈ s.clients) :
    s.client? c.id = some c := by
  obtain ⟨d, hd⟩ : ∃ d, s.client? c.id = some d := by
    rw [← Option.ne_none_iff_exists', Ne, client?_eq_none_iff, not_not]
    exact List.mem_map_of_mem hc
  rw [hd, List.inj_on_of_nodup_map hids (mem_of_client? hd) hc (id_of_client? hd)]

theorem client?_eq_some_iff (hids : (s.clients.map Client.id).Nodup) :
    s.client? id = some c ↔ c ∈ s.clients ∧ c.id = id := by
  refine ⟨fun h => ⟨mem_of_client? h, id_of_client? h⟩, ?_⟩
  rintro ⟨hc, rfl⟩
  exact client?_of_mem hids hc

/-- Clients are found in whatever order they turn up. -/
theorem client?_reorder {clients : List Client} (hids : (s.clients.map Client.id).Nodup)
    (hperm : clients.Perm s.clients) (i : Identity) :
    ({ s with clients := clients } : Scheduler).client? i = s.client? i := by
  ext c
  rw [client?_eq_some_iff ((hperm.map Client.id).nodup_iff.2 hids), client?_eq_some_iff hids,
    hperm.mem_iff]

variable {f : Client → Client}

theorem ids_modifyClient (hf : ∀ c, (f c).id = c.id) :
    (s.modifyClient id f).clients.map Client.id = s.clients.map Client.id := by
  rw [modifyClient, List.map_map]
  refine List.map_congr_left fun c _ => ?_
  rw [Function.comp_apply]
  split
  · exact hf c
  · rfl

theorem client?_modifyClient (hf : ∀ c, (f c).id = c.id) (i : Identity) :
    (s.modifyClient id f).client? i = (s.client? i).map fun c => if c.id = id then f c else c := by
  have hid : ∀ c : Client, (if c.id = id then f c else c).id = c.id := by
    intro c
    split
    · exact hf c
    · rfl
  rw [client?, modifyClient, List.find?_map, client?]
  congr 2
  funext c
  rw [Function.comp_apply, hid]

theorem map_client?_of_ne {i : Identity} (hi : i ≠ id) :
    (s.client? i).map (fun c => if c.id = id then f c else c) = s.client? i := by
  cases hc : s.client? i with
  | none => rfl
  | some c => rw [Option.map_some, if_neg fun h => hi ((id_of_client? hc).symm.trans h)]

theorem client?_modifyClient_self (hf : ∀ c, (f c).id = c.id) (hc : s.client? id = some c) :
    (s.modifyClient id f).client? id = some (f c) := by
  rw [client?_modifyClient hf, hc, Option.map_some, if_pos (id_of_client? hc)]

theorem heldJobs_modifyClient (hf : ∀ c, (f c).job = c.job) :
    (s.modifyClient id f).heldJobs = s.heldJobs := by
  rw [heldJobs, modifyClient, List.filterMap_map]
  refine List.filterMap_congr fun c _ => ?_
  rw [Function.comp_apply]
  split
  · exact hf c
  · rfl

theorem map_of_forall_ne {cs : List Client} (h : ∀ c ∈ cs, c.id ≠ id) :
    cs.map (fun c => if c.id = id then f c else c) = cs :=
  (List.map_congr_left fun c hc => if_neg (h c hc)).trans (List.map_id cs)

theorem exists_clients_modifyClient (hids : (s.clients.map Client.id).Nodup)
    (hc : s.client? id = some c) :
    ∃ as bs, s.clients = as ++ c :: bs ∧ ∀ f, (s.modifyClient id f).clients = as ++ f c :: bs := by
  obtain ⟨as, bs, hsplit⟩ := List.append_of_mem (mem_of_client? hc)
  have hid := id_of_client? hc
  rw [hsplit, List.map_append, List.map_cons, List.nodup_append, List.nodup_cons, hid] at hids
  obtain ⟨-, ⟨hbs, -⟩, has⟩ := hids
  have hleft : ∀ a ∈ as, a.id ≠ id := fun a ha =>
    has _ (List.mem_map_of_mem ha) _ List.mem_cons_self
  have hright : ∀ b ∈ bs, b.id ≠ id := fun b hb h => hbs (h ▸ List.mem_map_of_mem hb)
  refine ⟨as, bs, hsplit, fun f => ?_⟩
  simp only [modifyClient, hsplit, List.map_append, List.map_cons, if_pos hid,
    map_of_forall_ne hleft, map_of_forall_ne hright]

theorem filterMap_job_split (as bs : List Client) (c : Client) :
    ((as ++ c :: bs).filterMap Client.job).Perm
      (c.job.toList ++ (as.filterMap Client.job ++ bs.filterMap Client.job)) := by
  have hcons : (c :: bs).filterMap Client.job = c.job.toList ++ bs.filterMap Client.job := by
    cases h : c.job <;> simp [h]
  rw [List.filterMap_append, hcons]
  exact List.perm_append_comm_assoc _ _ _

/-- A change of a client changes its job and nobody else's. -/
theorem exists_heldJobs_modifyClient (hids : (s.clients.map Client.id).Nodup)
    (hc : s.client? id = some c) :
    ∃ others, s.heldJobs.Perm (c.job.toList ++ others) ∧
      ∀ f, (s.modifyClient id f).heldJobs.Perm ((f c).job.toList ++ others) := by
  obtain ⟨as, bs, hsplit, hmodified⟩ := exists_clients_modifyClient hids hc
  refine ⟨as.filterMap Client.job ++ bs.filterMap Client.job, ?_, fun f => ?_⟩
  · rw [heldJobs, hsplit]
    exact filterMap_job_split as bs c
  · rw [heldJobs, hmodified]
    exact filterMap_job_split as bs (f c)

end Clients

section Sweep

theorem foldl_requeue {js queue : List Job} (h : (js ++ queue).Nodup) :
    js.foldl requeue queue = js.reverse ++ queue := by
  induction js generalizing queue with
  | nil => rfl
  | cons j js ih =>
    have hperm : (js ++ j :: queue).Nodup := List.perm_middle.nodup_iff.2 h
    have hnew : j ∉ queue := fun hj => (List.nodup_cons.1 h).1 (List.mem_append_right _ hj)
    rw [List.foldl_cons, requeue, if_neg hnew, ih hperm, List.reverse_cons, List.append_assoc]
    rfl

/-- A sweep puts the jobs of the silent clients in front of the queue. -/
theorem queue_sweep (h : s.jobs.Nodup) : (s.sweep now).queue =
    ((s.clients.filter (s.isSilent now)).filterMap Client.job).reverse ++ s.queue := by
  apply foldl_requeue
  exact h.sublist ((List.filter_sublist.filterMap Client.job).append_right s.queue)

/-- A sweep only moves jobs from clients to the queue. -/
theorem jobs_sweep (h : s.jobs.Nodup) : (s.sweep now).jobs.Perm s.jobs := by
  have hclients := (List.filter_append_perm (s.isSilent now) s.clients).filterMap Client.job
  rw [List.filterMap_append] at hclients
  rw [jobs, queue_sweep h]
  -- The held jobs of the silent clients and those of the others, before and after the sweep.
  set silent := (s.clients.filter (s.isSilent now)).filterMap Client.job
  set kept := (s.clients.filter fun c => !s.isSilent now c).filterMap Client.job
  refine (((List.reverse_perm silent).append_right s.queue).append_left kept).trans ?_
  rw [← List.append_assoc]
  exact (List.perm_append_comm.trans hclients).append_right s.queue

theorem jobs_prune (h : s.jobs.Nodup) : (s.prune now).jobs.Perm s.jobs := by
  rw [prune]
  split
  · exact jobs_sweep h
  · exact List.Perm.refl _

/-- A sweep removes the silent clients and leaves the others as they are. -/
theorem client?_sweep (hids : (s.clients.map Client.id).Nodup) (now : Instant) (i : Identity) :
    (s.sweep now).client? i = (s.client? i).filter fun c => !s.isSilent now c := by
  have hids' : ((s.sweep now).clients.map Client.id).Nodup :=
    hids.sublist (List.filter_sublist.map Client.id)
  ext c
  rw [Option.filter_eq_some_iff, client?_eq_some_iff hids', client?_eq_some_iff hids, and_right_comm]
  exact and_congr_left' List.mem_filter

/-- A client that was heard of right now is not removed. -/
theorem client?_prune (hids : (s.clients.map Client.id).Nodup)
    (htiming : 0 ≤ s.timing.inactivity) (hc : s.client? id = some c) (hnow : c.lastContact = now) :
    (s.prune now).client? id = some c := by
  rw [prune]
  split
  · rw [client?_sweep hids, hc, Option.filter_some, if_pos]
    simp [isSilent, hnow, htiming]
  · exact hc

@[simp] theorem cursor_prune (s : Scheduler) (now : Instant) : (s.prune now).cursor = s.cursor := by
  rw [prune]
  split <;> rfl

@[simp] theorem timing_prune (s : Scheduler) (now : Instant) : (s.prune now).timing = s.timing := by
  rw [prune]
  split <;> rfl

@[simp] theorem lastRescan_prune (s : Scheduler) (now : Instant) :
    (s.prune now).lastRescan = s.lastRescan := by
  rw [prune]
  split <;> rfl

@[simp] theorem nextDiscs_prune (s : Scheduler) (now : Instant) :
    (s.prune now).nextDiscs = s.nextDiscs := by
  rw [nextDiscs, cursor_prune, nextDiscs]

theorem clients_prune : (s.prune now).clients.Sublist s.clients := by
  rw [prune]
  split
  · exact List.filter_sublist
  · exact List.Sublist.refl _

end Sweep

section Requests

theorem jobs_register (introduction : Introduction) :
    (s.register id introduction now).jobs = s.jobs := by
  simp [jobs, heldJobs, register]

theorem nodup_ids_register (hids : (s.clients.map Client.id).Nodup) (hid : s.client? id = none)
    (introduction : Introduction) (now : Instant) :
    ((s.register id introduction now).clients.map Client.id).Nodup := by
  rw [register, List.map_append, List.nodup_append_comm]
  exact List.nodup_cons.2 ⟨client?_eq_none_iff.1 hid, hids⟩

theorem jobs_touch (s : Scheduler) (id : Identity) (now : Instant) :
    (s.touch id now).jobs = s.jobs := by
  rw [jobs, touch, heldJobs_modifyClient]
  · rfl
  · exact fun _ => rfl

theorem client?_touch (hc : s.client? id = some c) (now : Instant) :
    (s.touch id now).client? id = some { c with lastContact := now } :=
  client?_modifyClient_self (fun _ => rfl) hc

theorem client?_touch_of_ne {i : Identity} (hi : i ≠ id) (now : Instant) :
    (s.touch id now).client? i = s.client? i :=
  (client?_modifyClient (f := fun c => { c with lastContact := now }) (fun _ => rfl) i).trans
    (map_client?_of_ne hi)

/-- Whether it is time to sweep does not depend on who has just been heard of. -/
theorem prune_touch (s : Scheduler) (id : Identity) (now : Instant) :
    (s.touch id now).prune now =
      if isDue s.lastPrune s.timing.pruneInterval now then (s.touch id now).sweep now
      else s.touch id now := rfl

theorem eq_touch_of_heartbeat {s' : Scheduler} (h : s.heartbeat id now = .ok s') :
    s' = s.touch id now := by
  rw [heartbeat] at h
  split at h
  · exact (Except.ok.inj h).symm
  · cases h

theorem ids_touch : (s.touch id now).clients.map Client.id = s.clients.map Client.id :=
  ids_modifyClient fun _ => rfl

theorem heldJobs_assign (s : Scheduler) (c : Client) (job : Option Job) :
    (s.assign c job).heldJobs = (s.modifyClient c.id fun c => { c with job := job }).heldJobs := by
  simp only [assign]
  split
  · rfl
  · split <;> rfl

theorem client?_assign (s : Scheduler) (c : Client) (job : Option Job) (i : Identity) :
    (s.assign c job).client? i =
      (s.modifyClient c.id fun c => { c with job := job }).client? i := by
  simp only [assign]
  split
  · rfl
  · split <;> rfl

theorem ids_assign (s : Scheduler) (c : Client) (job : Option Job) :
    (s.assign c job).clients.map Client.id = s.clients.map Client.id := by
  have hids : (s.modifyClient c.id fun c => { c with job := job }).clients.map Client.id =
      s.clients.map Client.id := ids_modifyClient fun _ => rfl
  simp only [assign]
  split
  · exact hids
  · split <;> exact hids

@[simp] theorem cursor_assign (s : Scheduler) (c : Client) (job : Option Job) :
    (s.assign c job).cursor = s.cursor := by
  simp only [assign]
  split
  · rfl
  · split <;> rfl

@[simp] theorem lastPrune_assign (s : Scheduler) (c : Client) (job : Option Job) :
    (s.assign c job).lastPrune = s.lastPrune := by
  simp only [assign]
  split
  · rfl
  · split <;> rfl

@[simp] theorem timing_assign (s : Scheduler) (c : Client) (job : Option Job) :
    (s.assign c job).timing = s.timing := by
  simp only [assign]
  split
  · rfl
  · split <;> rfl

/-- The job that a client held goes to the front of the queue, as it is neither there nor given
again. -/
theorem queue_assign {job : Option Job} (hc : c ∈ s.clients)
    (h : (job.toList ++ s.jobs).Nodup) : (s.assign c job).queue = c.job.toList ++ s.queue := by
  simp only [assign]
  cases hprevious : c.job with
  | none => rfl
  | some previous =>
    have hheld : previous ∈ s.heldJobs := List.mem_filterMap.2 ⟨c, hc, hprevious⟩
    have hjob : some previous ≠ job := by
      rintro rfl
      exact (List.nodup_cons.1 h).1 (List.mem_append_left s.queue hheld)
    have hqueue : previous ∉ s.queue := fun hq =>
      List.disjoint_of_nodup_append h.of_append_right hheld hq
    simp only [if_neg hjob, requeue]
    exact if_neg hqueue

/-- An assignment adds the job that is given to the jobs, and takes none away. -/
theorem jobs_assign {job : Option Job} (hids : (s.clients.map Client.id).Nodup)
    (hc : s.client? id = some c) (h : (job.toList ++ s.jobs).Nodup) :
    (s.assign c job).jobs.Perm (job.toList ++ s.jobs) := by
  obtain rfl := id_of_client? hc
  obtain ⟨others, hbefore, hafter⟩ := exists_heldJobs_modifyClient hids hc
  rw [jobs, heldJobs_assign, queue_assign (mem_of_client? hc) h]
  have hswap := List.perm_append_comm_assoc others c.job.toList s.queue
  have hgiven := (hafter fun c => { c with job := job }).append_right (c.job.toList ++ s.queue)
  rw [List.append_assoc] at hgiven
  refine hgiven.trans (List.Perm.append_left _ (hswap.trans ?_))
  rw [← List.append_assoc]
  exact hbefore.symm.append_right s.queue

theorem exists_finished (c : Client) (e : Evaluation) (now : Instant) :
    ∃ finished : List Job,
      (∀ j, j ∈ finished ↔ c.job = some j ∧ j.position = e.position.canonical) ∧
        c.job.toList = finished ++ (c.done e now).job.toList := by
  cases hjob : c.job with
  | none => exact ⟨[], by simp, by simp [Client.done, hjob]⟩
  | some j =>
    by_cases hj : j.position = e.position.canonical
    · refine ⟨[j], fun i => ?_, by simp [Client.done, hjob, Option.filter, hj]⟩
      rw [List.mem_singleton, Option.some.injEq]
      constructor
      · rintro rfl
        exact ⟨rfl, hj⟩
      · exact fun h => h.1.symm
    · refine ⟨[], fun i => ?_, by simp [Client.done, hjob, Option.filter, hj]⟩
      simp only [List.not_mem_nil, Option.some.injEq, false_iff, not_and]
      exact fun h => h ▸ hj

/-- A result takes away the job that its client holds for its position, and no other. -/
theorem jobs_done (hids : (s.clients.map Client.id).Nodup) (hc : s.client? id = some c)
    (e : Evaluation) (now : Instant) :
    ∃ finished : List Job,
      (∀ j, j ∈ finished ↔ c.job = some j ∧ j.position = e.position.canonical) ∧
        s.jobs.Perm (finished ++ (s.modifyClient id fun c => c.done e now).jobs) := by
  obtain ⟨others, hbefore, hafter⟩ := exists_heldJobs_modifyClient hids hc
  obtain ⟨finished, hfinished, hsplit⟩ := exists_finished c e now
  refine ⟨finished, hfinished, ?_⟩
  have hheld := (hafter fun c => c.done e now).symm.append_left finished
  rw [← List.append_assoc, ← hsplit] at hheld
  rw [jobs, jobs, ← List.append_assoc]
  exact (hbefore.trans hheld).append_right s.queue

end Requests

end OthelloBook.Scheduler
