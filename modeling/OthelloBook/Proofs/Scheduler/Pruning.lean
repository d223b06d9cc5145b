import OthelloBook.Proofs.Scheduler.Chronicle

/-!
# Who is removed

Clients leave the registry only in sweeps, which come no more often than they should, and only when
they have been silent for too long. A client that is heard of in time keeps its record and its job.
-/
namespace OthelloBook.Scheduler

variable {σ : Type} {storage : Storage σ} {s : Scheduler} {st : σ} {id i : Identity} {now : Instant}
  {c g : Client} {log : List Entry}

section Sweeps

/-- What a sweep makes of the clients and of the queue, in whatever order the clients turn up. -/
structure Swept (s s' : Scheduler) (now : Instant) : Prop where
  clients : s'.clients = s.clients.filter fun c => now - c.lastContact ≤ s.timing.inactivity
  queue : ∃ back, s'.queue = back ++ s.queue ∧ ∀ j, j ∈ back ↔
    ∃ c ∈ s.clients, s.timing.inactivity < now - c.lastContact ∧ c.job = some j
  once : ∀ c ∈ s.clients, s.timing.inactivity < now - c.lastContact →
    ∀ j, c.job = some j → s'.queue.count j = 1
  order : ∀ clients, clients.Perm s.clients →
    (({ s with clients := clients } : Scheduler).sweep now).queue.Perm s'.queue

theorem queue_sweep_reorder (hs : s.Consistent) {clients : List Client}
    (hperm : clients.Perm s.clients) :
    (({ s with clients := clients } : Scheduler).sweep now).queue.Perm (s.sweep now).queue := by
  rw [queue_sweep (hs.reorder hperm).jobs_nodup, queue_sweep hs.jobs_nodup]
  have hback := (hperm.filter (s.isSilent now)).filterMap Client.job
  exact (((List.reverse_perm _).trans hback).trans (List.reverse_perm _).symm).append_right s.queue

theorem swept_sweep (hs : s.Consistent) (now : Instant) : Swept s (s.sweep now) now := by
  have hqueue : (s.sweep now).queue =
      ((s.clients.filter (s.isSilent now)).filterMap Client.job).reverse ++ s.queue :=
    queue_sweep hs.jobs_nodup
  have hback : ∀ j, j ∈ ((s.clients.filter (s.isSilent now)).filterMap Client.job).reverse ↔
      ∃ c ∈ s.clients, s.timing.inactivity < now - c.lastContact ∧ c.job = some j := by
    intro j
    simp [isSilent, and_assoc]
  have hnodup : (s.sweep now).queue.Nodup :=
    ((jobs_sweep hs.jobs_nodup).nodup_iff.2 hs.jobs_nodup).of_append_right
  constructor
  · refine List.filter_congr fun c _ => ?_
    rw [isSilent, ← decide_not]
    exact decide_eq_decide.2 not_lt
  · exact ⟨_, hqueue, hback⟩
  · intro c hc hsilent j hj
    refine List.count_eq_one_of_mem hnodup ?_
    rw [hqueue]
    exact List.mem_append_left _ ((hback j).2 ⟨c, hc, hsilent, hj⟩)
  · exact fun clients hperm => queue_sweep_reorder hs hperm

/-- The queue after a sweep, with the jobs of the clients that are gone at its front. -/
theorem exists_queue_prune (hs : s.Consistent) (now : Instant) :
    ∃ back, (s.prune now).queue = back ++ s.queue ∧ ∀ j ∈ back, ∃ gone ∈ s.clients,
      gone.job = some j ∧ (s.prune now).client? gone.id = none := by
  rw [prune]
  split
  · obtain ⟨back, hqueue, hback⟩ := (swept_sweep hs now).queue
    refine ⟨back, hqueue, fun j hj => ?_⟩
    obtain ⟨gone, hmem, hsilent, hjob⟩ := (hback j).1 hj
    refine ⟨gone, hmem, hjob, ?_⟩
    rw [client?_sweep hs.ids, client?_of_mem hs.ids hmem, Option.filter_some, isSilent,
      decide_eq_true hsilent]
    rfl
  · exact ⟨[], rfl, by simp⟩

end Sweeps

section Clients

/-- Two clients do not hold the same position. -/
theorem position_ne_of_held (hs : s.Consistent) (hc : c ∈ s.clients) (hg : g ∈ s.clients)
    (hne : c ≠ g) {j k : Job} (hj : c.job = some j) (hk : g.job = some k) :
    j.position ≠ k.position := by
  obtain ⟨as, bs, hsplit⟩ := List.append_of_mem hc
  have hnodup : (s.heldJobs.map Job.position).Nodup :=
    hs.positions.sublist ((List.sublist_append_left _ _).map _)
  rw [heldJobs, hsplit, ((filterMap_job_split as bs c).map Job.position).nodup_iff, hj] at hnodup
  have hothers : g ∈ as ++ bs := by
    rw [hsplit] at hg
    exact (List.mem_cons.1 (List.perm_middle.mem_iff.1 hg)).resolve_left hne.symm
  have hk : k ∈ as.filterMap Client.job ++ bs.filterMap Client.job := by
    rw [← List.filterMap_append]
    exact List.mem_filterMap.2 ⟨g, hothers, hk⟩
  intro hsame
  exact (List.nodup_cons.1 hnodup).1 (hsame ▸ List.mem_map_of_mem hk)

theorem client?_nextJob_of_ne (hc : s.client? id = some c) (hi : i ≠ id) :
    (s.nextJob storage id now st).2.1.client? i = ((s.touch id now).prune now).client? i := by
  obtain ⟨f, -, hclient, -⟩ := exists_nextJob_client storage s hc now st
  rw [hclient, map_client?_of_ne hi]

/-- A client that is not the caller stays as it is, unless a sweep finds it silent. -/
theorem client?_nextJob_of_recent (hs : s.Consistent) (hc : s.client? id = some c) (hi : i ≠ id)
    (hg : s.client? i = some g)
    (hrecent : isDue s.lastPrune s.timing.pruneInterval now = true →
      now - g.lastContact ≤ s.timing.inactivity) :
    (s.nextJob storage id now st).2.1.client? i = some g := by
  have htouch : (s.touch id now).client? i = some g := (client?_touch_of_ne hi now).trans hg
  rw [client?_nextJob_of_ne hc hi, prune_touch]
  split
  · rename_i hdue
    have hspoken : (s.touch id now).isSilent now g = false := decide_eq_false (hrecent hdue).not_gt
    rw [client?_sweep (hs.touch id now).ids, htouch, Option.filter_some, hspoken]
    rfl
  · exact htouch

/-- The job that a request is answered with is held by the caller. -/
theorem exists_client_of_nextJob {j : Job} (h : (s.nextJob storage id now st).1 = .ok (some j)) :
    ∃ c, (s.nextJob storage id now st).2.1.client? id = some c ∧ c.job = some j := by
  rw [nextJob_eq_handOut] at h ⊢
  cases hc : s.client? id with
  | none => simp [hc] at h
  | some c =>
    rw [hc] at h
    generalize s.prepare storage id now st = prepared at h ⊢
    obtain ⟨e | u, s', st'⟩ := prepared
    · cases h
    · cases hcaller : s'.client? id with
      | none => simp [handOut, hcaller] at h
      | some d =>
        dsimp only at h ⊢
        rw [answer_handOut s' hcaller] at h
        refine ⟨{ d with job := s'.queue.head? }, ?_, Except.ok.inj h⟩
        rw [client?_handOut s' hcaller, hcaller, Option.map_some, if_pos (id_of_client? hcaller)]

end Clients

section Runs

variable {timing : Timing} {w : Surroundings σ}

theorem client?_eq_none_of_chronicled (hw : w.Sound) (h : Chronicled w timing s st log)
    (i : Identity) :
    s.client? i = none ↔ lastContact? i log = none ∨ Missed timing.inactivity i log := by
  rw [← known_eq_none_iff, ← contact?_of_chronicled hw h, contact?, Option.map_eq_none_iff]

theorem lastContact?_of_chronicled (hw : w.Sound) (h : Chronicled w timing s st log)
    (hc : s.client? i = some c) : lastContact? i log = some c.lastContact := by
  have hknown : known timing.inactivity i log = some c.lastContact := by
    rw [← contact?_of_chronicled hw h, contact?, hc, Option.map_some]
  exact lastContact?_of_known hknown

/-- A client that is heard of in time stays as it is when another one asks for a job. -/
theorem client?_nextJob_of_attentive (hw : w.Sound) (h : Chronicled w timing s st log)
    (hc : s.client? id = some c) (hi : i ≠ id) (hg : s.client? i = some g)
    (hattentive : Attentive timing.inactivity i (s.noted id now log)) :
    (s.nextJob w.storage id now st).2.1.client? i = some g := by
  have hreachable := reachable_of_chronicled h
  refine client?_nextJob_of_recent (holds_of_reachable hw hreachable).1 hc hi hg fun hdue => ?_
  rw [timing_of_reachable hreachable]
  refine hattentive now (.contact id now :: log) g.lastContact ?_ ?_
  · rw [noted, if_pos hdue]
  · rw [lastContact?, if_neg hi.symm]
    exact lastContact?_of_chronicled hw h hg

/-- A request is not answered with a job that another client holds. -/
theorem position_ne_of_nextJob (hw : w.Sound) (h : Reachable w timing s st) (hi : i ≠ id)
    (hg : (s.nextJob w.storage id now st).2.1.client? i = some g) {j k : Job}
    (hanswer : (s.nextJob w.storage id now st).1 = .ok (some j)) (hk : g.job = some k) :
    j.position ≠ k.position := by
  obtain ⟨d, hd, hj⟩ := exists_client_of_nextJob hanswer
  refine position_ne_of_held (holds_of_reachable hw (h.nextJob id now)).1 (mem_of_client? hd)
    (mem_of_client? hg) ?_ hj hk
  rintro rfl
  exact hi ((id_of_client? hg).symm.trans (id_of_client? hd))

end Runs

/-- Only clients that were never heard of, and those that a sweep found silent for too long and that
were not heard of since, are not registered. Between two sweeps there is at least the time that
there has to be. A request sweeps when it is time to, before it does anything else: the clients that
are silent for too long are removed and their jobs put in front of the queue. The caller is never
among them, and neither is a client that is heard of in time, which keeps its record as it is, and
its job, which the caller is not given. -/
theorem pruning_is_exact {timing : Timing} (htiming : 0 ≤ timing.inactivity)
    {st : Store × List Disturbance} (h : Chronicled contended timing s st log) :
    (∀ i, s.client? i = none ↔ lastContact? i log = none ∨ Missed timing.inactivity i log) ∧
    (∀ i c, s.client? i = some c → lastContact? i log = some c.lastContact) ∧
    (∀ i, lastContact? i log ≠ none → Attentive timing.inactivity i log → s.client? i ≠ none) ∧
    s.lastPrune = (sweeps log).head? ∧
    (sweeps log).IsChain (fun later earlier => timing.pruneInterval ≤ later - earlier) ∧
    ∀ id c now, s.client? id = some c →
      let t := (s.touch id now).prune now
      let s' := (s.nextJob disturbedStorage id now st).2.1
      (isDue s.lastPrune timing.pruneInterval now = true → Swept (s.touch id now) t now) ∧
      (isDue s.lastPrune timing.pruneInterval now = false → t = s.touch id now) ∧
      s'.client? id ≠ none ∧
      (∀ i ≠ id, s'.client? i = t.client? i) ∧
      ∀ i ≠ id, ∀ g, s.client? i = some g → Attentive timing.inactivity i (s.noted id now log) →
        s'.client? i = some g ∧ ∀ j k, (s.nextJob disturbedStorage id now st).1 = .ok (some j) →
          g.job = some k → j.position ≠ k.position := by
  have hreachable := reachable_of_chronicled h
  have hs := (holds_of_reachable sound_contended hreachable).1
  have hsame := timing_of_reachable hreachable
  obtain ⟨hlast, hchain⟩ := sweeps_of_chronicled h
  have hnone := client?_eq_none_of_chronicled sound_contended h
  refine ⟨hnone, fun i c hc => lastContact?_of_chronicled sound_contended h hc, ?_, hlast, hchain,
    ?_⟩
  · intro i hheard hattentive hgone
    rcases (hnone i).1 hgone with hnever | hmissed
    · exact hheard hnever
    · exact hattentive.not_missed hmissed
  · intro id c now hc t s'
    have hprune := prune_touch s id now
    rw [hsame] at hprune
    refine ⟨fun hdue => ?_, fun hdue => ?_, ?_, fun i hi => client?_nextJob_of_ne hc hi, ?_⟩
    · rw [show t = _ from hprune, if_pos hdue]
      exact swept_sweep (hs.touch id now) now
    · rw [show t = _ from hprune, if_neg (by simp [hdue])]
    · obtain ⟨f, -, hclient, -⟩ := exists_nextJob_client disturbedStorage s hc now st
      have hcaller : t.client? id = some { c with lastContact := now } :=
        client?_prune (hs.touch id now).ids (hsame ▸ htiming) (client?_touch hc now) rfl
      rw [hclient, hcaller]
      exact Option.some_ne_none _
    · intro i hi g hg hattentive
      have hkept := client?_nextJob_of_attentive sound_contended h hc hi hg hattentive
      exact ⟨hkept, fun j k hanswer hk =>
        position_ne_of_nextJob sound_contended hreachable hi hkept hanswer hk⟩

/-- The first client falls silent after it was handed a job. The request of the second one removes
it and is given its job, and the next sweep leaves the second client registered. -/
theorem pruning_is_exact_one_silent_client :
    ∃ s st log s', Chronicled contended {} s st log ∧
      log = [.sweep 400000, .contact ⟨1⟩ 400000, .sweep 1, .contact ⟨0⟩ 1, .contact ⟨1⟩ 0,
        .contact ⟨0⟩ 0] ∧
      s.client? ⟨0⟩ = none ∧ Missed 300000 ⟨0⟩ log ∧ s.held = [.start] ∧
      s' = (s.nextJob disturbedStorage ⟨1⟩ 430000 st).2.1 ∧
      Swept (s.touch ⟨1⟩ 430000) ((s.touch ⟨1⟩ 430000).prune 430000) 430000 ∧
      s'.client? ⟨1⟩ ≠ none := by
  have h₀ : Chronicled contended {} (start {})
      (Store.filled [⟨.start, 16, 16, .p73, 0, []⟩], []) [] := .start ⟨_, rfl⟩
  have h₂ := (h₀.register (rfl : (start {}).client? ⟨0⟩ = none) ⟨"first", ""⟩ 0).register
    (by decide : ((start {}).register ⟨0⟩ ⟨"first", ""⟩ 0).client? ⟨1⟩ = none) ⟨"second", ""⟩ 0
  have h₃ := h₂.nextJob
    (by decide +kernel : client? _ ⟨0⟩ = some ⟨⟨0⟩, ⟨"first", ""⟩, 0, none, 0⟩) 1
  have h₄ := h₃.nextJob
    (by decide +kernel : client? _ ⟨1⟩ = some ⟨⟨1⟩, ⟨"second", ""⟩, 0, none, 0⟩) 400000
  obtain ⟨hnone, -, -, -, -, hcall⟩ := pruning_is_exact (by decide) h₄
  obtain ⟨hswept, -, hcaller, -⟩ :=
    hcall ⟨1⟩ ⟨⟨1⟩, ⟨"second", ""⟩, 400000, some ⟨.start, 36⟩, 0⟩ 430000 (by decide +kernel)
  refine ⟨_, _, _, _, h₄, by decide +kernel, by decide +kernel, ?_, by decide +kernel, rfl,
    hswept (by decide +kernel), hcaller⟩
  exact ((hnone ⟨0⟩).1 (by decide +kernel)).resolve_left (by decide +kernel)

end OthelloBook.Scheduler
