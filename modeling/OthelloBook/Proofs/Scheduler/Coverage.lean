import OthelloBook.Proofs.Scheduler.Consistency

/-!
# No work is lost

With a book that nobody else writes to, and with clients that send finished searches only, every
stored position that is work is held, waits in the queue, or lies ahead of the cursor. A search
along numbers of discs passes only those whose work is held by clients.
-/
namespace OthelloBook.Scheduler

/-- Each position that is work has a job or is ahead of the cursor. -/
def Covered (b : Store) (s : Scheduler) : Prop :=
  ∀ p, b.Work p → (∃ j ∈ s.jobs, j.position = p) ∨ ∀ c, s.cursor = some c → c < p.discCount

variable {b : Store} {s s' : Scheduler}

namespace Covered

theorem start (b : Store) (timing : Timing) : Covered b (Scheduler.start timing) := by
  intro p _
  exact .inr (by simp [Scheduler.start])

theorem of_perm (h : Covered b s) (hjobs : s'.jobs.Perm s.jobs) (hcursor : s'.cursor = s.cursor) :
    Covered b s' := by
  intro p hp
  rcases h p hp with ⟨j, hj, hpos⟩ | hahead
  · exact .inl ⟨j, hjobs.mem_iff.2 hj, hpos⟩
  · exact .inr (hcursor ▸ hahead)

/-- A queue covers the work behind the cursor if it has all that nobody holds. -/
theorem of_queue {discs : ℕ} (hcursor : s.cursor = some discs)
    (h : ∀ p, b.Work p → p.discCount ≤ discs → p ∈ s.held ∨ ∃ j ∈ s.queue, j.position = p) :
    Covered b s := by
  intro p hp
  rcases le_or_gt p.discCount discs with hle | hlt
  · rcases h p hp hle with hheld | ⟨j, hj, hpos⟩
    · obtain ⟨j, hj, hpos⟩ := mem_held.1 hheld
      exact .inl ⟨j, mem_jobs.2 (.inl hj), hpos⟩
    · exact .inl ⟨j, mem_jobs.2 (.inr hj), hpos⟩
  · right
    intro c hc
    rw [hcursor, Option.some.injEq] at hc
    omega

/-- A result takes away the job of its position only, which is no longer work once it is saved. -/
theorem done (h : Covered b s) (hb : b.Sound) (hs : s.Consistent) {id : Identity} {c : Client}
    (hc : s.client? id = some c) {e : Evaluation} (he : Store.Finishes e) (now : Instant) :
    Covered (b.save e).2 (s.modifyClient id fun c => c.done e now) := by
  obtain ⟨finished, hfinished, hperm⟩ := jobs_done hs.ids hc e now
  intro p hp
  obtain ⟨hwork, hne⟩ := hp.of_save hb he
  rcases h p hwork with ⟨j, hj, rfl⟩ | hahead
  · rcases List.mem_append.1 (hperm.mem_iff.1 hj) with hj | hj
    · exact absurd ((hfinished j).1 hj).2 hne
    · exact .inl ⟨j, hj, rfl⟩
  · exact .inr hahead

end Covered

section Search

variable {discs : ℕ} {ds : List ℕ}

/-- The work at a number of discs is held or loaded. -/
theorem loadJobs_complete (hb : b.Sound) (s : Scheduler) (discs : ℕ) :
    ∃ js, loadJobs Store.storage s discs b = (.ok js, b) ∧
      ∀ p, b.Work p → p.discCount = discs → p ∈ s.held ∨ ∃ j ∈ js, j.position = p := by
  obtain ⟨ps, hps, -⟩ := Store.worklist_of_sound hb discs (Level.target discs)
  refine ⟨(ps.filter fun p => p ∉ s.held).map fun p => ⟨p, Level.target discs⟩, ?_, ?_⟩
  · change ((b.worklist discs (Level.target discs)).map _, b) = _
    rw [hps]
    rfl
  · rintro p ⟨-, -, hrow⟩ rfl
    have hmem := (Store.mem_worklist hb hps).2 ⟨rfl, hrow⟩
    by_cases hheld : p ∈ s.held
    · exact .inl hheld
    · exact .inr ⟨_, List.mem_map_of_mem (List.mem_filter.2 ⟨hmem, by simpa using hheld⟩), rfl⟩

/-- What a search tells about the work at its numbers of discs. -/
def Surveyed (b : Store) (s : Scheduler) (ds : List ℕ) : Option (ℕ × List Job) → Prop
  | none => ∀ p, b.Work p → p.discCount ∈ ds → p ∈ s.held
  | some (discs, js) => discs ∈ ds ∧ js ≠ [] ∧ ∀ p, b.Work p → p.discCount ∈ ds →
      p.discCount ≤ discs → p ∈ s.held ∨ ∃ j ∈ js, j.position = p

theorem search_complete (hb : b.Sound) (s : Scheduler) (hds : ds.Pairwise (· < ·)) :
    ∃ found, search Store.storage s ds b = (.ok found, b) ∧ Surveyed b s ds found := by
  induction ds with
  | nil => exact ⟨none, rfl, by simp [Surveyed]⟩
  | cons discs rest ih =>
    obtain ⟨hlt, hrest⟩ := List.pairwise_cons.1 hds
    obtain ⟨js, hload, hcomplete⟩ := loadJobs_complete hb s discs
    rw [search, hload]
    cases js with
    | cons j js =>
      refine ⟨some (discs, j :: js), rfl, List.mem_cons_self, List.cons_ne_nil j js, ?_⟩
      intro p hp hmem hle
      refine hcomplete p hp ?_
      rcases List.mem_cons.1 hmem with heq | hmem
      · exact heq
      · exact absurd (hlt _ hmem) hle.not_gt
    | nil =>
      have hheld : ∀ p, b.Work p → p.discCount = discs → p ∈ s.held := by simpa using hcomplete
      obtain ⟨found, hsearch, hsurveyed⟩ := ih hrest
      refine ⟨found, hsearch, ?_⟩
      rcases found with _ | ⟨d, js⟩
      · intro p hp hmem
        rcases List.mem_cons.1 hmem with heq | hmem
        · exact hheld p hp heq
        · exact hsurveyed p hp hmem
      · obtain ⟨hd, hne, hfound⟩ := hsurveyed
        refine ⟨List.mem_cons_of_mem _ hd, hne, ?_⟩
        intro p hp hmem hle
        rcases List.mem_cons.1 hmem with heq | hmem
        · exact .inl (hheld p hp heq)
        · exact hfound p hp hmem hle

end Search

section Phases

theorem pairwise_discsFrom (first past : ℕ) : (discsFrom first past).Pairwise (· < ·) :=
  List.pairwise_lt_range'

/-- A look behind the cursor leaves the clients as they are and keeps all work covered. -/
theorem rescan_complete (hb : b.Sound) (h : Covered b s) (now : Instant) :
    ∃ s', rescan Store.storage s now b = (.ok (), s', b) ∧ s'.timing = s.timing ∧
      s'.clients = s.clients ∧ Covered b s' := by
  rw [rescan]
  split
  · have hnow : Covered b { s with lastRescan := some now } := h.of_perm (.refl _) rfl
    dsimp only
    split
    · exact ⟨_, rfl, rfl, rfl, hnow⟩
    · rename_i c hc
      obtain ⟨found, hsearch, hsurveyed⟩ := search_complete hb { s with lastRescan := some now }
        (pairwise_discsFrom Level.minDiscs (min c pastLast))
      rw [rewind_eq_search, hsearch]
      rcases found with _ | ⟨d, js⟩
      · exact ⟨_, rfl, rfl, rfl, hnow⟩
      · obtain ⟨hd, -, hfound⟩ := hsurveyed
        refine ⟨_, rfl, rfl, rfl, Covered.of_queue rfl fun p hp hle => hfound p hp ?_ hle⟩
        rw [mem_discsFrom] at hd ⊢
        exact ⟨hp.1, hle.trans_lt hd.2⟩
  · exact ⟨s, rfl, rfl, rfl, h⟩

theorem nextDiscs_le {discs : ℕ} (hmin : Level.minDiscs ≤ discs)
    (hcursor : ∀ c, s.cursor = some c → c < discs) : s.nextDiscs ≤ discs := by
  rw [nextDiscs]
  split
  · exact hmin
  · rename_i c hc
    exact max_le (hcursor c hc) hmin

/-- A filled queue keeps all work covered, and it is empty only when the cursor is past the last
number of discs. -/
theorem refill_complete (hb : b.Sound) (h : Covered b s) :
    ∃ s', s.refill Store.storage b = (.ok (), s', b) ∧ s'.timing = s.timing ∧
      s'.clients = s.clients ∧ Covered b s' ∧ (s'.queue = [] → s'.cursor = some pastLast) := by
  rw [refill]
  cases hqueue : s.queue with
  | cons j js => exact ⟨s, rfl, rfl, rfl, h, by simp [hqueue]⟩
  | nil =>
    -- Work that is not among the numbers ahead has a job, and with an empty queue that job is held.
    have hbehind : ∀ p, b.Work p → p.discCount ∉ discsFrom s.nextDiscs pastLast → p ∈ s.held := by
      intro p hp hmem
      rcases h p hp with ⟨j, hj, hpos⟩ | hahead
      · rw [jobs, hqueue, List.append_nil] at hj
        exact mem_held.2 ⟨j, hj, hpos⟩
      · refine absurd (mem_discsFrom.2 ⟨?_, Nat.lt_succ_of_le hp.2.1⟩) hmem
        exact nextDiscs_le hp.1 hahead
    obtain ⟨found, hsearch, hsurveyed⟩ :=
      search_complete hb s (pairwise_discsFrom s.nextDiscs pastLast)
    rw [fill_eq_search, hsearch]
    rcases found with _ | ⟨d, js⟩
    · refine ⟨_, rfl, rfl, rfl, Covered.of_queue rfl fun p hp _ => .inl ?_, fun _ => rfl⟩
      by_cases hmem : p.discCount ∈ discsFrom s.nextDiscs pastLast
      · exact hsurveyed p hp hmem
      · exact hbehind p hp hmem
    · obtain ⟨hd, hne, hfound⟩ := hsurveyed
      refine ⟨_, rfl, rfl, rfl, Covered.of_queue rfl fun p hp hle => ?_,
        fun hnil => absurd hnil hne⟩
      by_cases hmem : p.discCount ∈ discsFrom s.nextDiscs pastLast
      · exact hfound p hp hmem hle
      · exact .inl (hbehind p hp hmem)

/-- A request is prepared without a fault, the caller stays registered with its job, and all work
stays covered. -/
theorem prepare_complete (hb : b.Sound) (hs : s.Consistent) (h : Covered b s)
    (htiming : 0 ≤ s.timing.inactivity) {id : Identity} {c : Client}
    (hc : s.client? id = some c) (now : Instant) :
    ∃ s', s.prepare Store.storage id now b = (.ok (), s', b) ∧ s'.timing = s.timing ∧
      s'.client? id = some { c with lastContact := now } ∧ Covered b s' ∧
      (s'.queue = [] → s'.cursor = some pastLast) := by
  have htouch := hs.touch id now
  have hcovered : Covered b ((s.touch id now).prune now) :=
    h.of_perm ((jobs_prune htouch.jobs_nodup).trans (.of_eq (jobs_touch s id now)))
      (cursor_prune _ _)
  have hcaller : ((s.touch id now).prune now).client? id = some { c with lastContact := now } :=
    client?_prune htouch.ids htiming (client?_touch hc now) rfl
  obtain ⟨s₁, hrescan, htiming₁, hclients₁, hcovered₁⟩ := rescan_complete hb hcovered now
  obtain ⟨s₂, hrefill, htiming₂, hclients₂, hcovered₂, hempty⟩ := refill_complete hb hcovered₁
  refine ⟨s₂, ?_, ?_, ?_, hcovered₂, hempty⟩
  · rw [prepare, hrescan]
    exact hrefill
  · rw [htiming₂, htiming₁, timing_prune]
    rfl
  · rw [client?, hclients₂, hclients₁]
    exact hcaller

/-- A request of a registered client hands out a job from a state in which all work is covered. -/
theorem nextJob_complete (hb : b.Sound) (hs : s.Consistent) (h : Covered b s)
    (htiming : 0 ≤ s.timing.inactivity) {id : Identity} {c : Client}
    (hc : s.client? id = some c) (now : Instant) :
    ∃ s', s.nextJob Store.storage id now b = ((s'.handOut id).1, (s'.handOut id).2, b) ∧
      s'.Consistent ∧ s'.timing = s.timing ∧ s'.client? id = some { c with lastContact := now } ∧
      Covered b s' ∧ (s'.queue = [] → s'.cursor = some pastLast) := by
  obtain ⟨s', hprepare, hrest⟩ := prepare_complete hb hs h htiming hc now
  have hholds : Holds undisturbed (s.prepare Store.storage id now b).2 :=
    holds_prepare sound_undisturbed ⟨hs, hb⟩ id now
  rw [hprepare] at hholds
  refine ⟨s', ?_, hholds.1, hrest⟩
  rw [nextJob_eq_handOut, hc, hprepare]

end Phases

section Runs

variable {timing : Timing}

theorem consistent_of_undisturbed (h : Reachable undisturbed timing s b) :
    s.Consistent ∧ b.Sound :=
  holds_of_reachable sound_undisturbed h

/-- All work is covered in every state of a run over a store that nobody else uses. -/
theorem covered_of_reachable (htiming : 0 ≤ timing.inactivity)
    (h : Reachable undisturbed timing s b) : s.timing = timing ∧ Covered b s := by
  induction h with
  | start => exact ⟨rfl, .start _ timing⟩
  | register h hid introduction now ih =>
    exact ⟨ih.1, ih.2.of_perm (.of_eq (jobs_register introduction)) rfl⟩
  | heartbeat h hs ih =>
    rw [eq_touch_of_heartbeat hs]
    exact ⟨ih.1, ih.2.of_perm (.of_eq (jobs_touch _ _ _)) rfl⟩
  | @nextJob s b h id now ih =>
    obtain ⟨hs, hb⟩ := consistent_of_undisturbed h
    cases hc : s.client? id with
    | none => simpa [nextJob, hc] using ih
    | some c =>
      obtain ⟨s', hnext, hs', htiming', hcaller, hcovered, -⟩ :=
        nextJob_complete hb hs ih.2 (ih.1 ▸ htiming) hc now
      rw [show undisturbed.storage = Store.storage from rfl, hnext]
      refine ⟨?_, hcovered.of_perm (jobs_handOut hs' hcaller) (cursor_handOut s' id)⟩
      rw [timing_handOut, htiming', ih.1]
  | @submit s b h id e he now ih =>
    obtain ⟨hs, hb⟩ := consistent_of_undisturbed h
    rw [submit]
    cases hc : s.client? id with
    | none => exact ih
    | some c => exact ⟨ih.1, ih.2.done hb hs hc (he (by simp [hc])) now⟩
  | meanwhile h hst ih => exact hst.elim
  | reorder h hperm ih =>
    exact ⟨ih.1, ih.2.of_perm ((hperm.filterMap Client.job).append_right _) rfl⟩

/-- When there is no job to hand out, all work is held but for what the caller gives back. -/
theorem held_or_given_back (hb : b.Sound) (hs : s.Consistent) (h : Covered b s)
    (htiming : 0 ≤ s.timing.inactivity) {id : Identity} {now : Instant} {b' : Store}
    (hnext : s.nextJob Store.storage id now b = (.ok none, s', b')) {p : Position}
    (hp : b'.Work p) :
    p ∈ s'.held ∨ ∃ c j, s.client? id = some c ∧ c.job = some j ∧ j ∈ s'.queue ∧
      j.position = p := by
  cases hc : s.client? id with
  | none => simp [nextJob, hc] at hnext
  | some c =>
    obtain ⟨t, hprepared, ht, -, hcaller, hcovered, hempty⟩ :=
      nextJob_complete hb hs h htiming hc now
    rw [hprepared, Prod.mk.injEq, Prod.mk.injEq] at hnext
    obtain ⟨hanswer, rfl, rfl⟩ := hnext
    have hqueue : t.queue = [] := by simpa [handOut, hcaller] using hanswer
    obtain ⟨j, hj, rfl⟩ : ∃ j ∈ t.jobs, j.position = p := by
      rcases hcovered p hp with hjob | hahead
      · exact hjob
      · exact absurd (hahead pastLast (hempty hqueue)) (Nat.le_succ_of_le hp.2.1).not_gt
    rcases mem_jobs.1 ((jobs_handOut ht hcaller).mem_iff.2 hj) with hheld | hback
    · exact .inl (mem_held.2 ⟨j, hheld, rfl⟩)
    · refine .inr ⟨c, j, rfl, ?_, hback, rfl⟩
      rw [queue_handOut ht hcaller, hqueue] at hback
      simpa using hback

/-- No work is lost: in every state of a run each position that is work is in the queue, or held, or
has more discs than the cursor, unless there is no cursor yet. When a request is told that there is
no job, all work that remains is held, but for the job that the caller has just given back. -/
theorem no_work_is_lost (htiming : 0 ≤ timing.inactivity) (h : Reachable undisturbed timing s b) :
    (∀ p, b.Work p → (∃ j ∈ s.queue, j.position = p) ∨ p ∈ s.held ∨ s.cursor = none ∨
      ∃ c, s.cursor = some c ∧ c < p.discCount) ∧
    ∀ id now s' b', s.nextJob Store.storage id now b = (.ok none, s', b') →
      ∀ p, b'.Work p → p ∈ s'.held ∨
        ∃ c j, s.client? id = some c ∧ c.job = some j ∧ j ∈ s'.queue ∧ j.position = p := by
  obtain ⟨hs, hb⟩ := consistent_of_undisturbed h
  obtain ⟨hsame, hcovered⟩ := covered_of_reachable htiming h
  refine ⟨fun p hp => ?_, fun id now s' b' hnext p hp => ?_⟩
  · rcases hcovered p hp with ⟨j, hj, hpos⟩ | hahead
    · rcases mem_jobs.1 hj with hheld | hqueue
      · exact .inr (.inl (mem_held.2 ⟨j, hheld, hpos⟩))
      · exact .inl ⟨j, hqueue, hpos⟩
    · cases hcursor : s.cursor with
      | none => exact .inr (.inr (.inl rfl))
      | some c => exact .inr (.inr (.inr ⟨c, rfl, hahead c hcursor⟩))
  · exact held_or_given_back hb hs hcovered (hsame ▸ htiming) hnext hp

/-- A client that holds the only work asks again: there is no other job, and it gives it back. -/
theorem no_work_is_lost_asked_again :
    ∃ s b s' b', Reachable undisturbed {} s b ∧ s.held = [.start] ∧
      s.nextJob Store.storage ⟨0⟩ 2 b = (.ok none, s', b') ∧ b'.Work .start ∧ s'.held = [] ∧
      (.start ∈ s'.held ∨ ∃ c j, s.client? ⟨0⟩ = some c ∧ c.job = some j ∧ j ∈ s'.queue ∧
        j.position = .start) := by
  have h₀ : Reachable undisturbed {} (start {}) (Store.filled [⟨.start, 16, 16, .p73, 0, []⟩]) :=
    .start ⟨_, rfl⟩
  have hnew : (start {}).client? ⟨0⟩ = none := rfl
  have h₁ := (h₀.register hnew ⟨"only", ""⟩ 0).nextJob ⟨0⟩ 1
  refine ⟨_, _, _, _, h₁, by decide +kernel, Prod.ext (by decide +kernel) rfl, by decide +kernel,
    by decide +kernel, ?_⟩
  exact (no_work_is_lost (by decide) h₁).2 _ _ _ _ (Prod.ext (by decide +kernel) rfl) _
    (by decide +kernel)

end Runs

end OthelloBook.Scheduler
