import OthelloBook.Proofs.Scheduler.Agenda

/-!
# Looking behind the cursor

When it is time to, a request looks for work behind the cursor before anything else. It goes back to
the least number of discs with work that nobody holds, and the queue is what the book lists there.
The jobs that waited until then are loaded again, wait ahead of the new cursor, or are no longer
work, so that nothing is lost by going back.
-/
namespace OthelloBook.Scheduler

variable {b : Store} {s : Scheduler} {j : Job} {discs cursor : ℕ} {id : Identity} {now : Instant}

/-- The jobs at a number of discs that nobody holds, as the book lists them. -/
def openAt (b : Store) (s : Scheduler) (discs : ℕ) : List Job :=
  (b.agendaAt discs).filter fun j => j.position ∉ s.held

/-- The numbers of discs behind the cursor at which there is work that nobody holds. -/
def openBehind (b : Store) (s : Scheduler) : Set ℕ :=
  {discs | (∃ cursor, s.cursor = some cursor ∧ discs < cursor) ∧
    ∃ p, b.Work p ∧ p.discCount = discs ∧ p ∉ s.held}

section Open

theorem mem_openAt (hb : b.Sound) (hmin : Level.minDiscs ≤ discs) (hlt : discs < pastLast) :
    j ∈ openAt b s discs ↔ b.Work j.position ∧ j.position.discCount = discs ∧
      j.level = Level.target discs ∧ j.position ∉ s.held := by
  rw [openAt, List.mem_filter, Store.mem_agendaAt hb, decide_eq_true_eq]
  constructor
  · rintro ⟨⟨rfl, hlevel, hrow⟩, hunheld⟩
    exact ⟨⟨hmin, Nat.le_of_lt_succ hlt, hrow⟩, rfl, hlevel, hunheld⟩
  · rintro ⟨⟨-, -, hrow⟩, rfl, hlevel, hunheld⟩
    exact ⟨⟨rfl, hlevel, hrow⟩, hunheld⟩

theorem pairwise_openAt (hb : b.Sound) (s : Scheduler) (discs : ℕ) :
    (openAt b s discs).Pairwise fun i j => b.Before i.position j.position :=
  (Store.pairwise_agendaAt hb discs).sublist List.filter_sublist

theorem mem_openBehind (hb : b.Sound) (hcursor : s.cursor = some cursor) :
    discs ∈ openBehind b s ↔
      discs ∈ discsFrom Level.minDiscs (min cursor pastLast) ∧ openAt b s discs ≠ [] := by
  rw [mem_discsFrom, lt_min_iff]
  constructor
  · rintro ⟨⟨c, hc, hlt⟩, p, hp, rfl, hunheld⟩
    obtain rfl := Option.some.inj (hcursor.symm.trans hc)
    have hpast : p.discCount < pastLast := Nat.lt_succ_of_le hp.2.1
    refine ⟨⟨hp.1, hlt, hpast⟩, List.ne_nil_of_mem (a := ⟨p, Level.target p.discCount⟩) ?_⟩
    exact (mem_openAt hb hp.1 hpast).2 ⟨hp, rfl, rfl, hunheld⟩
  · rintro ⟨⟨hmin, hlt, hpast⟩, hne⟩
    obtain ⟨j, hj⟩ := List.exists_mem_of_ne_nil _ hne
    obtain ⟨hwork, hdiscs, -, hunheld⟩ := (mem_openAt hb hmin hpast).1 hj
    exact ⟨⟨cursor, hcursor, hlt⟩, j.position, hwork, hdiscs, hunheld⟩

theorem minDiscs_mem_lowerBounds (b : Store) (s : Scheduler) :
    Level.minDiscs ∈ lowerBounds (openBehind b s) := by
  rintro discs ⟨-, p, hp, rfl, -⟩
  exact hp.1

theorem find?_openAt_of_isLeast (hb : b.Sound) (hcursor : s.cursor = some cursor)
    (h : IsLeast (openBehind b s) discs) :
    (discsFrom Level.minDiscs (min cursor pastLast)).find? (fun d => openAt b s d ≠ []) =
      some discs := by
  obtain ⟨hmem, hne⟩ := (mem_openBehind hb hcursor).1 h.1
  rw [discsFrom, List.find?_range'_eq_some]
  refine ⟨by simpa using hne, hmem, fun d hmin hlt => ?_⟩
  have hbefore : d ∈ discsFrom Level.minDiscs (min cursor pastLast) :=
    mem_discsFrom.2 ⟨hmin, hlt.trans (mem_discsFrom.1 hmem).2⟩
  have hclosed : d ∉ openBehind b s := fun hd => (h.2 hd).not_gt hlt
  rw [mem_openBehind hb hcursor, not_and] at hclosed
  simpa using hclosed hbefore

theorem find?_openAt_of_empty (hb : b.Sound) (hcursor : s.cursor = some cursor)
    (h : openBehind b s = ∅) :
    (discsFrom Level.minDiscs (min cursor pastLast)).find? (fun d => openAt b s d ≠ []) = none := by
  rw [List.find?_eq_none]
  intro d hd hopen
  have hmem : d ∈ openBehind b s := (mem_openBehind hb hcursor).2 ⟨hd, by simpa using hopen⟩
  rw [h] at hmem
  exact hmem

/-- A job that waits and is still work is loaded by going back to the first open number of discs, or
it lies ahead of that number. -/
theorem mem_openAt_or_lt (hb : b.Sound) (hs : s.Consistent) (h : IsLeast (openBehind b s) discs)
    (hj : j ∈ s.queue) (hrow : ∃ r ∈ b.rows, Store.Below j.level j.position r) :
    j ∈ openAt b s discs ∨ discs < j.position.discCount := by
  obtain ⟨-, -, hmin, hmax, hlevel⟩ := hs.proper j (mem_jobs.2 (.inr hj))
  rw [hlevel] at hrow
  have hunheld := hs.unheld_of_mem_queue hj
  have hwork : b.Work j.position := ⟨hmin, hmax, hrow⟩
  rcases lt_trichotomy discs j.position.discCount with hahead | rfl | hbehind
  · exact .inr hahead
  · exact .inl ((mem_openAt hb hmin (Nat.lt_succ_of_le hmax)).2 ⟨hwork, rfl, hlevel, hunheld⟩)
  · obtain ⟨c, hc, hlt⟩ := h.1.1
    have hopen : j.position.discCount ∈ openBehind b s :=
      ⟨⟨c, hc, hbehind.trans hlt⟩, j.position, hwork, rfl, hunheld⟩
    exact absurd (h.2 hopen) hbehind.not_ge

end Open

section Rewind

/-- Neither the caller nor a sweep has a say in whether it is time to look behind the cursor. -/
theorem isDue_rescan_prune (hdue : isDue s.lastRescan s.timing.rescanInterval now = true) :
    isDue ((s.touch id now).prune now).lastRescan
      ((s.touch id now).prune now).timing.rescanInterval now = true := by
  rw [lastRescan_prune, timing_prune]
  exact hdue

theorem rescan_eq_find? (hb : b.Sound) (hcursor : s.cursor = some cursor)
    (hdue : isDue s.lastRescan s.timing.rescanInterval now = true) :
    rescan Store.storage s now b =
      match (discsFrom Level.minDiscs (min cursor pastLast)).find? fun d => openAt b s d ≠ [] with
      | none => (.ok (), { s with lastRescan := some now }, b)
      | some d =>
        (.ok (),
          { s with lastRescan := some now, cursor := some d, queue := openAt b s d }, b) := by
  have hload : ∀ d ∈ discsFrom Level.minDiscs (min cursor pastLast),
      loadJobs Store.storage { s with lastRescan := some now } d b = (.ok (openAt b s d), b) :=
    fun d _ => loadJobs_eq_agendaAt hb _ d
  rw [rescan_of_cursor _ hdue hcursor, rewind_eq_search, search_eq_find? hload]
  cases (discsFrom Level.minDiscs (min cursor pastLast)).find? fun d => openAt b s d ≠ [] <;> rfl

theorem rescan_of_isLeast (hb : b.Sound) (hcursor : s.cursor = some cursor)
    (hdue : isDue s.lastRescan s.timing.rescanInterval now = true)
    (h : IsLeast (openBehind b s) discs) :
    rescan Store.storage s now b = (.ok (),
      { s with lastRescan := some now, cursor := some discs, queue := openAt b s discs }, b) := by
  rw [rescan_eq_find? hb hcursor hdue, find?_openAt_of_isLeast hb hcursor h]

theorem rescan_of_openBehind_empty (hb : b.Sound) (hcursor : s.cursor = some cursor)
    (hdue : isDue s.lastRescan s.timing.rescanInterval now = true) (h : openBehind b s = ∅) :
    rescan Store.storage s now b = (.ok (), { s with lastRescan := some now }, b) := by
  rw [rescan_eq_find? hb hcursor hdue, find?_openAt_of_empty hb hcursor h]

/-- A request whose look behind the cursor leaves jobs in the queue hands out the first of them. -/
theorem nextJob_of_rescan {σ : Type} {storage : Storage σ} {st st' : σ} {s' : Scheduler}
    {c c' : Client} {rest : List Job} (hc : s.client? id = some c)
    (hrescan : rescan storage ((s.touch id now).prune now) now st = (.ok (), s', st'))
    (hs' : s'.Consistent) (hc' : s'.client? id = some c') (hqueue : s'.queue = j :: rest) :
    s.nextJob storage id now st = (.ok (some j), (s'.handOut id).2, st') ∧
      (s'.handOut id).2.queue = c'.job.toList ++ rest := by
  constructor
  · rw [nextJob_eq_handOut, hc, prepare, hrescan]
    dsimp only
    rw [refill_of_ne_nil _ _ (by simp [hqueue])]
    dsimp only
    rw [answer_handOut _ hc', hqueue, List.head?_cons]
  · rw [queue_handOut hs' hc', hqueue, List.tail_cons]

/-- A request at a time to look behind the cursor hands out the first job of the least open number
of discs. -/
theorem exists_nextJob_of_isLeast (hs : s.Consistent) (hb : b.Sound)
    (htiming : 0 ≤ s.timing.inactivity) {c : Client} (hc : s.client? id = some c)
    (hcursor : s.cursor = some cursor)
    (hdue : isDue s.lastRescan s.timing.rescanInterval now = true)
    (h : IsLeast (openBehind b ((s.touch id now).prune now)) discs) :
    ∃ j rest s', s.nextJob Store.storage id now b = (.ok (some j), s', b) ∧
      s'.cursor = some discs ∧ s'.queue = c.job.toList ++ rest ∧
      openAt b ((s.touch id now).prune now) discs = j :: rest := by
  have htouch := hs.touch id now
  have hcaller : ((s.touch id now).prune now).client? id = some { c with lastContact := now } :=
    client?_prune htouch.ids htiming (client?_touch hc now) rfl
  have hcursor' : ((s.touch id now).prune now).cursor = some cursor :=
    (cursor_prune _ _).trans hcursor
  obtain ⟨j, rest, hopen⟩ := List.exists_cons_of_ne_nil ((mem_openBehind hb hcursor').1 h.1).2
  have hrescan := rescan_of_isLeast hb hcursor' (isDue_rescan_prune hdue) h
  have hloaded : Holds undisturbed (rescan Store.storage ((s.touch id now).prune now) now b).2 :=
    holds_rescan sound_undisturbed ⟨htouch.prune now, hb⟩ now
  rw [hopen] at hrescan
  rw [hrescan] at hloaded
  obtain ⟨hnext, hqueue⟩ := nextJob_of_rescan hc hrescan hloaded.1 hcaller rfl
  exact ⟨j, rest, _, hnext, cursor_handOut _ id, hqueue, hopen⟩

end Rewind

/-- When it is time to look behind the cursor, a request is answered with the first job that the
book lists at the least number of discs with work that nobody holds. The cursor goes back to this
number and the queue to its jobs, and of the jobs that waited before, given back by a sweep or not,
those that are still work are loaded again or have more discs. If there is no such work behind the
cursor, the look changes nothing but its time. So once the cursor is past the last number of discs,
the answer is that there is no job only if all work is held. -/
theorem work_behind_the_cursor_comes_first {timing : Timing} (htiming : 0 ≤ timing.inactivity)
    {ds : List Disturbance} (h : Reachable contended timing s (b, ds)) {c : Client}
    (hc : s.client? id = some c) (hcursor : s.cursor = some cursor)
    (hdue : isDue s.lastRescan timing.rescanInterval now = true) :
    let t := (s.touch id now).prune now
    (∀ discs, IsLeast (openBehind b t) discs → ∃ j rest s',
      s.nextJob Store.storage id now b = (.ok (some j), s', b) ∧ s'.cursor = some discs ∧
        s'.queue = c.job.toList ++ rest ∧
        (∀ i, i ∈ j :: rest ↔ b.Work i.position ∧ i.position.discCount = discs ∧
          i.level = Level.target discs ∧ i.position ∉ t.held) ∧
        (j :: rest).Pairwise (fun i j => b.Before i.position j.position) ∧
        ∀ i ∈ t.queue, (∃ r ∈ b.rows, Store.Below i.level i.position r) →
          i ∈ j :: rest ∨ discs < i.position.discCount) ∧
    (openBehind b t = ∅ →
      rescan Store.storage t now b = (.ok (), { t with lastRescan := some now }, b)) ∧
    (cursor = 31 → (s.nextJob Store.storage id now b).1 = .ok none →
      ∀ p, b.Work p → p ∈ t.held) := by
  intro t
  obtain ⟨hs, hb⟩ := holds_of_reachable sound_contended h
  change b.Sound at hb
  rw [← timing_of_reachable h] at htiming hdue
  have ht : t.Consistent := (hs.touch id now).prune now
  have htcursor : t.cursor = some cursor := (cursor_prune _ _).trans hcursor
  have hfirst := fun discs (hleast : IsLeast (openBehind b t) discs) =>
    exists_nextJob_of_isLeast hs hb htiming hc hcursor hdue hleast
  refine ⟨fun discs hleast => ?_, fun hempty => ?_, fun hpast hnone p hp => ?_⟩
  · obtain ⟨hmem, -⟩ := (mem_openBehind hb htcursor).1 hleast.1
    obtain ⟨hmin, hlt⟩ := mem_discsFrom.1 hmem
    obtain ⟨j, rest, s', hnext, hmoved, hqueue, hopen⟩ := hfirst discs hleast
    refine ⟨j, rest, s', hnext, hmoved, hqueue, fun i => ?_, ?_, fun i hi hrow => ?_⟩
    · rw [← hopen]
      exact mem_openAt hb hmin (lt_min_iff.1 hlt).2
    · rw [← hopen]
      exact pairwise_openAt hb t discs
    · rw [← hopen]
      exact mem_openAt_or_lt hb ht hleast hi hrow
  · exact rescan_of_openBehind_empty hb htcursor (isDue_rescan_prune hdue) hempty
  · by_contra hunheld
    have hopen : (openBehind b t).Nonempty :=
      ⟨p.discCount, ⟨cursor, htcursor, hpast ▸ Nat.lt_succ_of_le hp.2.1⟩, p, hp, rfl, hunheld⟩
    obtain ⟨j, rest, s', hnext, -⟩ := hfirst _ (isLeast_csInf hopen)
    rw [hnext] at hnone
    cases hnone

/-- A client that works on a position with six discs falls silent, and the beginning of the game is
saved. The next request gives the job back, then goes back to the beginning, and the job that was
given back lies ahead of the cursor again. -/
theorem work_behind_the_cursor_comes_first_new_beginning :
    ∃ s b ds p, Reachable contended {} s (b, ds) ∧ s.held = [p] ∧ s.cursor = some 6 ∧
      ((s.touch ⟨1⟩ 400000).prune 400000).queue = [⟨p, 36⟩] ∧
      (s.nextJob Store.storage ⟨1⟩ 400000 b).1 = .ok (some ⟨.start, 36⟩) ∧
      ∃ j rest s', s.nextJob Store.storage ⟨1⟩ 400000 b = (.ok (some j), s', b) ∧
        s'.cursor = some 4 ∧ (⟨p, 36⟩ ∈ j :: rest ∨ 4 < p.discCount) := by
  let p : Position := ⟨469762048, 120259084288, by decide⟩
  have h₀ : Reachable contended {} (start {}) (Store.filled [⟨p, 18, 18, .p73, 0, []⟩], []) :=
    .start ⟨_, rfl⟩
  have h₂ := (h₀.register (rfl : (start {}).client? ⟨0⟩ = none) ⟨"first", ""⟩ 0).register
    (by decide : ((start {}).register ⟨0⟩ ⟨"first", ""⟩ 0).client? ⟨1⟩ = none) ⟨"second", ""⟩ 0
  have h₃ : Reachable contended {} _ (_, []) :=
    (h₂.nextJob ⟨0⟩ 1).meanwhile ⟨[⟨.start, 16, 16, .p73, 0, []⟩], rfl⟩
  obtain ⟨hfirst, -⟩ := work_behind_the_cursor_comes_first (by decide) h₃
    (by decide +kernel : client? _ ⟨1⟩ = some ⟨⟨1⟩, ⟨"second", ""⟩, 0, none, 0⟩)
    (by decide +kernel : Scheduler.cursor _ = some 6)
    (by decide +kernel : isDue _ _ 400000 = true)
  obtain ⟨j, rest, s', hnext, hcursor, -, -, -, hwaiting⟩ := hfirst 4
    ⟨⟨⟨6, by decide +kernel, by decide⟩, .start, by decide +kernel, by decide +kernel,
      by decide +kernel⟩, minDiscs_mem_lowerBounds _ _⟩
  exact ⟨_, _, [], p, h₃, by decide +kernel, by decide +kernel, by decide +kernel,
    by decide +kernel, j, rest, s', hnext, hcursor,
    hwaiting ⟨p, 36⟩ (by decide +kernel) (by decide +kernel)⟩

end OthelloBook.Scheduler
