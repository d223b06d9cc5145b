import OthelloBook.Proofs.Scheduler.Coverage
import OthelloBook.Proofs.Scheduler.Rewinds

/-!
# Diligent clients

Clients that send a finished search for each job before they ask for another one work off the agenda
of the book, job by job. What was handed out and what waits in the queue is always the agenda up to
the cursor: behind it all work is held, so that no search for work behind the cursor finds any, and
ahead of it the work lists are those of the beginning.
-/
namespace OthelloBook.Scheduler

section Clients

def given : Except SchedulerError (Option Job) → List Job
  | .ok (some j) => [j]
  | _ => []

end Clients

structure Progress (b₀ : Store) (s : Scheduler) (b : Store) (handed : List Job) : Prop where
  agenda : handed ++ s.queue = b₀.agenda (min s.nextDiscs pastLast)
  queue : ∀ j ∈ s.queue, s.cursor = some j.position.discCount
  held : ∀ j ∈ s.heldJobs, j ∈ handed
  unfinished : ∀ j ∈ handed, b.Work j.position → j ∈ s.heldJobs
  work : ∀ p, b.Work p → b₀.Work p
  ahead : ∀ d, s.nextDiscs ≤ d → d < pastLast → b.agendaAt d = b₀.agendaAt d

variable {b₀ b : Store} {s s' : Scheduler} {handed : List Job} {id : Identity} {c : Client}
  {now : Instant}

namespace Progress

theorem start (b₀ : Store) (timing : Timing) : Progress b₀ (Scheduler.start timing) b₀ [] := by
  constructor <;> simp [Scheduler.start, heldJobs, nextDiscs, Store.agenda, discsFrom]

/-- Progress depends on the queue, the cursor and the jobs that are held. -/
theorem congr (h : Progress b₀ s b handed) (hheld : s'.heldJobs.Perm s.heldJobs)
    (hqueue : s'.queue = s.queue) (hcursor : s'.cursor = s.cursor) :
    Progress b₀ s' b handed where
  agenda := by
    rw [nextDiscs, hcursor, hqueue]
    exact h.agenda
  queue j hj := by
    rw [hcursor]
    exact h.queue j (hqueue ▸ hj)
  held j hj := h.held j (hheld.mem_iff.1 hj)
  unfinished j hj hwork := hheld.mem_iff.2 (h.unfinished j hj hwork)
  work := h.work
  ahead d hd := h.ahead d (by rwa [nextDiscs, hcursor] at hd)

theorem discCount_lt (h : Progress b₀ s b handed) (hb₀ : b₀.Sound) {j : Job} (hj : j ∈ handed) :
    j.position.discCount < s.nextDiscs := by
  have hmem : j ∈ b₀.agenda (min s.nextDiscs pastLast) := h.agenda ▸ List.mem_append_left _ hj
  exact ((Store.mem_agenda hb₀ (min_le_right _ _)).1 hmem).2.2.trans_le (min_le_left _ _)

section Request

/-- The queue takes up the jobs of the next number of discs that has any. -/
theorem load (h : Progress b₀ s b handed) (hb₀ : b₀.Sound) (hqueue : s.queue = []) {d : ℕ}
    (hnext : s.nextDiscs ≤ d) (hlt : d < pastLast)
    (hbefore : ∀ d', s.nextDiscs ≤ d' → d' < d → b₀.agendaAt d' = []) :
    Progress b₀ { s with cursor := some d, queue := b₀.agendaAt d } b handed := by
  have hmin := minDiscs_le_nextDiscs s
  have hsucc : nextDiscs { s with cursor := some d, queue := b₀.agendaAt d } = d + 1 :=
    max_eq_left (by omega)
  have hhanded : handed = b₀.agenda d := by
    have hagenda := h.agenda
    rw [hqueue, List.append_nil, min_eq_left (hnext.trans hlt.le)] at hagenda
    rw [hagenda, Store.agenda_eq_of_empty hmin hnext hbefore]
  constructor
  · rw [hsucc, min_eq_left hlt, Store.agenda_succ (hmin.trans hnext), hhanded]
  · intro j hj
    rw [((Store.mem_agendaAt hb₀).1 hj).1]
  · exact h.held
  · exact h.unfinished
  · exact h.work
  · intro d' hd'
    rw [hsucc] at hd'
    exact h.ahead d' (by omega)

/-- A client that holds nothing takes the first job of the queue. -/
theorem handOut (h : Progress b₀ s b handed) (hs : s.Consistent) (hc : s.client? id = some c)
    (hidle : c.job = none) :
    Progress b₀ (s.handOut id).2 b (handed ++ s.queue.head?.toList) := by
  have hqueue : (s.handOut id).2.queue = s.queue.tail := by
    rw [queue_handOut hs hc, hidle]
    rfl
  have hsplit : s.queue = s.queue.head?.toList ++ s.queue.tail := by cases s.queue <;> rfl
  have hheld : (s.handOut id).2.heldJobs.Perm (s.heldJobs ++ s.queue.head?.toList) := by
    have hjobs := jobs_handOut hs hc
    have hall : s.jobs = s.heldJobs ++ s.queue.head?.toList ++ s.queue.tail := by
      rw [List.append_assoc, ← hsplit, jobs]
    rwa [hall, jobs, hqueue, List.perm_append_right_iff] at hjobs
  have hcursor : (s.handOut id).2.cursor = s.cursor := cursor_handOut s id
  have hnext : (s.handOut id).2.nextDiscs = s.nextDiscs := by rw [nextDiscs, hcursor, nextDiscs]
  constructor
  · rw [hqueue, hnext, List.append_assoc, ← hsplit]
    exact h.agenda
  · intro j hj
    rw [hcursor]
    exact h.queue j (List.mem_of_mem_tail (hqueue ▸ hj))
  · intro j hj
    rw [List.mem_append]
    exact (List.mem_append.1 (hheld.mem_iff.1 hj)).imp_left (h.held j)
  · intro j hj hwork
    rw [hheld.mem_iff, List.mem_append]
    exact (List.mem_append.1 hj).imp_left (h.unfinished j · hwork)
  · exact h.work
  · rw [hnext]
    exact h.ahead

end Request

/-- A result for the job of a client takes this job away, which is no longer work. -/
theorem done (h : Progress b₀ s b handed) (hb₀ : b₀.Sound) (hb : b.Sound) (hs : s.Consistent)
    (hc : s.client? id = some c) {j : Job} (hj : c.job = some j) {e : Evaluation}
    (hposition : e.position.canonical = j.position) (he : Store.Finishes e) (now : Instant) :
    Progress b₀ (s.modifyClient id fun c => c.done e now) (b.save e).2 handed := by
  obtain ⟨others, hbefore, hafter⟩ := exists_heldJobs_modifyClient hs.ids hc
  have hfinished : (c.done e now).job = none := by
    simp [Client.done, hj, Option.filter, hposition]
  have hheld : s.heldJobs.Perm (j :: others) := by simpa [hj] using hbefore
  have hothers : (s.modifyClient id fun c => c.done e now).heldJobs.Perm others := by
    simpa [hfinished] using hafter fun c => c.done e now
  constructor
  · exact h.agenda
  · exact h.queue
  · intro i hi
    exact h.held i (hheld.mem_iff.2 (List.mem_cons_of_mem _ (hothers.mem_iff.1 hi)))
  · intro i hi hwork
    obtain ⟨hbefore, hne⟩ := hwork.of_save hb he
    rcases List.mem_cons.1 (hheld.mem_iff.1 (h.unfinished i hi hbefore)) with rfl | hmem
    · exact absurd hposition.symm hne
    · exact hothers.mem_iff.2 hmem
  · intro p hp
    exact h.work p (hp.of_save hb he).1
  · intro d hd hlt
    have hbehind := h.discCount_lt hb₀ (h.held j (hheld.mem_iff.2 List.mem_cons_self))
    have hcount : e.position.discCount = j.position.discCount := by
      rw [← hposition, Position.discCount_canonical]
    have hne : e.position.discCount ≠ d := by
      change s.nextDiscs ≤ d at hd
      omega
    rw [Store.agendaAt_save hb hne]
    exact h.ahead d hd hlt

end Progress

section Runs

variable {timing : Timing} {es : List Evaluation}

end Runs
end OthelloBook.Scheduler
