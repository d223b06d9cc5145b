import OthelloBook.Proofs.Scheduler.Coverage
import OthelloBook.Proofs.Scheduler.Pruning

/-!
# Reads that fail

A request for a job reads the work of one number of discs after the other and stops at the first
read that fails. The clients and the queue are then as the sweep has left them, and so is the cursor
after a read behind it. A read ahead of the cursor takes the cursor along: it stays at the number of
discs that could not be read, and the requests that follow go on beyond it.
-/
namespace OthelloBook

/-- The storage with a record of the numbers of discs whose work was asked for, each with the fault
that came up, the last one first. -/
def Storage.recorded {σ : Type} (storage : Storage σ) :
    Storage (σ × List (ℕ × Option StoreError)) where
  worklist discs level st :=
    match storage.worklist discs level st.1 with
    | (.error e, st') => (.error e, st', (discs, some e) :: st.2)
    | (.ok ps, st') => (.ok ps, st', (discs, none) :: st.2)
  save e st := ((storage.save e st.1).1, (storage.save e st.1).2, st.2)

namespace Scheduler

variable {σ : Type} {storage : Storage σ} {s : Scheduler} {st : σ} {id : Identity} {now : Instant}
  {record : List (ℕ × Option StoreError)} {c : Client} {d : ℕ} {e : StoreError}

def reads (storage : Storage σ) (s : Scheduler) (id : Identity) (now : Instant) (st : σ) :
    List (ℕ × Option StoreError) :=
  (s.nextJob storage.recorded id now (st, [])).2.2.2

section Search

theorem loadJobs_recorded (storage : Storage σ) (s : Scheduler) (discs : ℕ) (st : σ)
    (record : List (ℕ × Option StoreError)) :
    loadJobs storage.recorded s discs (st, record) =
      match loadJobs storage s discs st with
      | (.error e, st') => (.error e, st', (discs, some e) :: record)
      | (.ok js, st') => (.ok js, st', (discs, none) :: record) := by
  cases hread : storage.worklist discs (Level.target discs) st with
  | mk answer st' => cases answer <;> simp [loadJobs, Storage.recorded, hread, Except.map]

/-- A search stops at the first read that fails. -/
theorem exists_reads_of_search (storage : Storage σ) (s : Scheduler) (ds : List ℕ) (st : σ)
    (record : List (ℕ × Option StoreError)) :
    ∃ reads, search storage.recorded s ds (st, record) =
        ((search storage s ds st).1, (search storage s ds st).2, reads ++ record) ∧
      (∀ read ∈ reads, read.1 ∈ ds) ∧
      ∀ d e, (d, some e) ∈ reads → (search storage s ds st).1 = .error (d, e) := by
  induction ds generalizing st record with
  | nil => exact ⟨[], rfl, by simp, by simp⟩
  | cons discs rest ih =>
    rw [search, search, loadJobs_recorded]
    rcases loadJobs storage s discs st with ⟨x | (_ | ⟨j, js⟩), st'⟩
    · exact ⟨[(discs, some x)], rfl, by simp, by simp⟩
    · obtain ⟨reads, hsearch, hmem, hfault⟩ := ih st' ((discs, none) :: record)
      refine ⟨reads ++ [(discs, none)], ?_, ?_, ?_⟩
      · rw [List.append_assoc]
        exact hsearch
      · intro read hread
        rcases List.mem_append.1 hread with hread | hread
        · exact List.mem_cons_of_mem _ (hmem read hread)
        · rw [List.mem_singleton.1 hread]
          exact List.mem_cons_self
      · intro d e hread
        exact hfault d e (by simpa using hread)
    · exact ⟨[(discs, none)], rfl, by simp, by simp⟩

theorem search_ne_nil {ds : List ℕ} {js : List Job}
    (h : (search storage s ds st).1 = .ok (some (d, js))) : js ≠ [] := by
  induction ds generalizing st with
  | nil => cases h
  | cons discs rest ih =>
    rw [search] at h
    rcases hload : loadJobs storage s discs st with ⟨x | (_ | ⟨j, js⟩), st'⟩ <;> rw [hload] at h
    · cases h
    · exact ih h
    · cases h
      exact List.cons_ne_nil j js

end Search

section Phases

theorem exists_reads_of_rewind (storage : Storage σ) (s : Scheduler) (ds : List ℕ) (st : σ)
    (record : List (ℕ × Option StoreError)) :
    ∃ reads, rewind storage.recorded ds s (st, record) =
        ((rewind storage ds s st).1, (rewind storage ds s st).2.1, (rewind storage ds s st).2.2,
          reads ++ record) ∧
      ∀ d e, (d, some e) ∈ reads →
        d ∈ ds ∧ (rewind storage ds s st).1 = .error e ∧ (rewind storage ds s st).2.1 = s := by
  obtain ⟨reads, hsearch, hmem, hfault⟩ := exists_reads_of_search storage s ds st record
  refine ⟨reads, ?_, fun d e hread => ⟨hmem _ hread, ?_⟩⟩
  · rw [rewind_eq_search, rewind_eq_search, hsearch]
    rcases search storage s ds st with ⟨⟨d, e⟩ | (_ | ⟨d, js⟩), st'⟩ <;> rfl
  · have hanswer := hfault d e hread
    rw [rewind_eq_search]
    generalize search storage s ds st = found at hanswer ⊢
    obtain ⟨answer, st'⟩ := found
    obtain rfl : answer = .error (d, e) := hanswer
    exact ⟨rfl, rfl⟩

theorem exists_reads_of_fill (storage : Storage σ) (s : Scheduler) (ds : List ℕ) (st : σ)
    (record : List (ℕ × Option StoreError)) :
    ∃ reads, fill storage.recorded ds s (st, record) =
        ((fill storage ds s st).1, (fill storage ds s st).2.1, (fill storage ds s st).2.2,
          reads ++ record) ∧
      (∀ read ∈ reads, read.1 ∈ ds) ∧
      ∀ d e, (d, some e) ∈ reads → (fill storage ds s st).1 = .error e ∧
        (fill storage ds s st).2.1 = { s with cursor := some d } := by
  obtain ⟨reads, hsearch, hmem, hfault⟩ := exists_reads_of_search storage s ds st record
  refine ⟨reads, ?_, hmem, fun d e hread => ?_⟩
  · rw [fill_eq_search, fill_eq_search, hsearch]
    rcases search storage s ds st with ⟨⟨d, e⟩ | (_ | ⟨d, js⟩), st'⟩ <;> rfl
  · have hanswer := hfault d e hread
    rw [fill_eq_search]
    generalize search storage s ds st = found at hanswer ⊢
    obtain ⟨answer, st'⟩ := found
    obtain rfl : answer = .error (d, e) := hanswer
    exact ⟨rfl, rfl⟩

/-- What lies behind the cursor is read only when it is time to. -/
theorem exists_reads_of_rescan (storage : Storage σ) (s : Scheduler) (now : Instant) (st : σ)
    (record : List (ℕ × Option StoreError)) :
    ∃ reads, rescan storage.recorded s now (st, record) =
        ((rescan storage s now st).1, (rescan storage s now st).2.1, (rescan storage s now st).2.2,
          reads ++ record) ∧
      (isDue s.lastRescan s.timing.rescanInterval now = false → reads = []) ∧
      ∀ d e, (d, some e) ∈ reads → (∃ c, s.cursor = some c ∧ d < c) ∧
        (rescan storage s now st).1 = .error e ∧
        (rescan storage s now st).2.1 = { s with lastRescan := some now } := by
  cases hdue : isDue s.lastRescan s.timing.rescanInterval now with
  | false =>
    rw [rescan_of_not_due _ hdue, rescan_of_not_due _ hdue]
    exact ⟨[], rfl, by simp, by simp⟩
  | true =>
    rcases Option.eq_none_or_eq_some s.cursor with hcursor | ⟨c, hcursor⟩
    · rw [rescan_of_no_cursor _ hdue hcursor, rescan_of_no_cursor _ hdue hcursor]
      exact ⟨[], rfl, by simp, by simp⟩
    · rw [rescan_of_cursor _ hdue hcursor, rescan_of_cursor _ hdue hcursor]
      obtain ⟨reads, hrewind, hfault⟩ := exists_reads_of_rewind storage
        { s with lastRescan := some now } (discsFrom Level.minDiscs (min c pastLast)) st record
      refine ⟨reads, hrewind, by simp, fun d e hread => ?_⟩
      obtain ⟨hd, hanswer⟩ := hfault d e hread
      exact ⟨⟨c, hcursor, (lt_min_iff.1 (mem_discsFrom.1 hd).2).1⟩, hanswer⟩

/-- An empty queue is filled from the numbers of discs ahead of the cursor. -/
theorem exists_reads_of_refill (storage : Storage σ) (s : Scheduler) (st : σ)
    (record : List (ℕ × Option StoreError)) :
    ∃ reads, refill storage.recorded s (st, record) =
        ((refill storage s st).1, (refill storage s st).2.1, (refill storage s st).2.2,
          reads ++ record) ∧
      (∀ read ∈ reads, s.queue = [] ∧ s.nextDiscs ≤ read.1) ∧
      ∀ d e, (d, some e) ∈ reads → (refill storage s st).1 = .error e ∧
        (refill storage s st).2.1 = { s with cursor := some d } := by
  by_cases hqueue : s.queue = []
  · rw [refill_of_nil _ _ hqueue, refill_of_nil _ _ hqueue]
    obtain ⟨reads, hfill, hmem, hfault⟩ :=
      exists_reads_of_fill storage s (discsFrom s.nextDiscs pastLast) st record
    refine ⟨reads, by rw [hfill], fun read hread => ?_, fun d e hread => ?_⟩
    · exact ⟨hqueue, (mem_discsFrom.1 (hmem read hread)).1⟩
    · obtain ⟨hanswer, hstate⟩ := hfault d e hread
      rw [hanswer]
      exact ⟨rfl, hstate⟩
  · rw [refill_of_ne_nil _ _ hqueue, refill_of_ne_nil _ _ hqueue]
    exact ⟨[], rfl, by simp, by simp⟩

/-- A look behind the cursor leaves the queue and the cursor as they are unless it finds jobs. -/
theorem rescan_cases (storage : Storage σ) (s : Scheduler) (now : Instant) (st : σ) :
    (rescan storage s now st).2.1.queue ≠ [] ∨
      (rescan storage s now st).2.1.queue = s.queue ∧
        (rescan storage s now st).2.1.cursor = s.cursor := by
  cases hdue : isDue s.lastRescan s.timing.rescanInterval now with
  | false =>
    rw [rescan_of_not_due _ hdue]
    exact .inr ⟨rfl, rfl⟩
  | true =>
    rcases Option.eq_none_or_eq_some s.cursor with hcursor | ⟨c, hcursor⟩
    · rw [rescan_of_no_cursor _ hdue hcursor]
      exact .inr ⟨rfl, rfl⟩
    · rw [rescan_of_cursor _ hdue hcursor, rewind_eq_search]
      rcases hsearch : search storage { s with lastRescan := some now }
        (discsFrom Level.minDiscs (min c pastLast)) st with ⟨⟨d, e⟩ | (_ | ⟨d, js⟩), st'⟩
      · exact .inr ⟨rfl, rfl⟩
      · exact .inr ⟨rfl, rfl⟩
      · exact .inl (search_ne_nil (congrArg Prod.fst hsearch))

/-- What a read that fails at a number of discs leaves of the state after the sweep. -/
structure Interrupted (s s' : Scheduler) (d : ℕ) : Prop where
  queue : s'.queue = s.queue
  cursor : (s'.cursor = s.cursor ∧ ∃ c, s.cursor = some c ∧ d < c) ∨
    (s'.cursor = some d ∧ s.nextDiscs ≤ d ∧ s.queue = [])

theorem exists_reads_of_prepare (storage : Storage σ) (s : Scheduler) (id : Identity)
    (now : Instant) (st : σ) (record : List (ℕ × Option StoreError)) :
    ∃ reads, prepare storage.recorded s id now (st, record) =
        ((prepare storage s id now st).1, (prepare storage s id now st).2.1,
          (prepare storage s id now st).2.2, reads ++ record) ∧
      (isDue s.lastRescan s.timing.rescanInterval now = false →
        ∀ read ∈ reads, s.nextDiscs ≤ read.1) ∧
      ∀ d e, (d, some e) ∈ reads → (prepare storage s id now st).1 = .error e ∧
        Interrupted ((s.touch id now).prune now) (prepare storage s id now st).2.1 d := by
  set t := (s.touch id now).prune now with ht
  obtain ⟨behind, hrescan, hidle, hfault⟩ := exists_reads_of_rescan storage t now st record
  rw [show t.lastRescan = s.lastRescan from lastRescan_prune _ _,
    show t.timing = s.timing from timing_prune _ _] at hidle
  have hnext : t.nextDiscs = s.nextDiscs := nextDiscs_prune _ _
  have hmoved := rescan_cases storage t now st
  rw [prepare, prepare, ← ht, hrescan]
  generalize rescan storage t now st = rescanned at hfault hmoved ⊢
  obtain ⟨x | u, s₁, st₁⟩ := rescanned
  · refine ⟨behind, rfl, fun hdue => by simp [hidle hdue], fun d e hread => ?_⟩
    obtain ⟨hbehind, hanswer, hstate⟩ := hfault d e hread
    obtain rfl : s₁ = _ := hstate
    exact ⟨hanswer, rfl, .inl ⟨rfl, hbehind⟩⟩
  · obtain ⟨ahead, hrefill, hmem, hfault'⟩ :=
      exists_reads_of_refill storage s₁ st₁ (behind ++ record)
    -- Whatever is read ahead is read with an empty queue, so nothing was found behind the cursor.
    have hsame : ∀ read ∈ ahead,
        s₁.queue = t.queue ∧ s₁.cursor = t.cursor ∧ s.nextDiscs ≤ read.1 := by
      intro read hread
      obtain ⟨hempty, hle⟩ := hmem read hread
      obtain ⟨hqueue, hcursor⟩ := hmoved.resolve_left (not_not_intro hempty)
      refine ⟨hqueue, hcursor, ?_⟩
      rw [← hnext, nextDiscs, ← hcursor, ← nextDiscs]
      exact hle
    refine ⟨ahead ++ behind, ?_, fun hdue read hread => ?_, fun d e hread => ?_⟩
    · rw [List.append_assoc]
      exact hrefill
    · rw [hidle hdue, List.append_nil] at hread
      exact (hsame read hread).2.2
    · rcases List.mem_append.1 hread with hread | hread
      · obtain ⟨hanswer, hstate⟩ := hfault' d e hread
        obtain ⟨hqueue, hcursor, hle⟩ := hsame _ hread
        refine ⟨hanswer, ?_⟩
        dsimp only
        rw [hstate]
        exact ⟨hqueue, .inr ⟨rfl, hnext ▸ hle, hqueue ▸ (hmem _ hread).1⟩⟩
      · cases (hfault d e hread).2.1

end Phases

section Requests

/-- A request for a job reads behind the cursor only when it is time to, and is answered with the
first fault. -/
theorem nextJob_reads (storage : Storage σ) (s : Scheduler) (id : Identity) (now : Instant)
    (st : σ) :
    (s.nextJob storage.recorded id now (st, [])).1 = (s.nextJob storage id now st).1 ∧
      (isDue s.lastRescan s.timing.rescanInterval now = false →
        ∀ read ∈ s.reads storage id now st, s.nextDiscs ≤ read.1) ∧
      ∀ d e, (d, some e) ∈ s.reads storage id now st →
        s.nextJob storage id now st =
            (.error (.store e), (s.prepare storage id now st).2.1,
              (s.prepare storage id now st).2.2) ∧
          Interrupted ((s.touch id now).prune now) (s.prepare storage id now st).2.1 d := by
  cases hc : s.client? id with
  | none => simp [reads, nextJob, hc]
  | some c =>
    obtain ⟨reads, hprepare, hdue, hfault⟩ := exists_reads_of_prepare storage s id now st []
    rw [List.append_nil] at hprepare
    have hreads : s.reads storage id now st = reads := by
      rw [Scheduler.reads, nextJob_eq_handOut, hc, hprepare]
      rcases s.prepare storage id now st with ⟨e | u, s', st'⟩ <;> rfl
    rw [hreads]
    refine ⟨?_, hdue, fun d e hread => ?_⟩
    · rw [nextJob_eq_handOut, nextJob_eq_handOut, hc, hprepare]
      rcases s.prepare storage id now st with ⟨e | u, s', st'⟩ <;> rfl
    · obtain ⟨hanswer, hinterrupted⟩ := hfault d e hread
      refine ⟨?_, hinterrupted⟩
      rw [nextJob_eq_handOut, hc]
      generalize s.prepare storage id now st = prepared at hanswer ⊢
      obtain ⟨answer, s', st'⟩ := prepared
      obtain rfl : answer = .error e := hanswer
      rfl

theorem exists_of_mem_clients_touch {g : Client} (hg : g ∈ (s.touch id now).clients) :
    ∃ known ∈ s.clients, known.id = g.id ∧ known.job = g.job := by
  obtain ⟨known, hknown, rfl⟩ := List.mem_map.1 hg
  refine ⟨known, hknown, ?_⟩
  split
  · exact ⟨rfl, rfl⟩
  · exact ⟨rfl, rfl⟩

end Requests

/-- A request is answered with the fault of a read that fails. The caller keeps its job, and nothing
comes to the queue but the jobs of clients that are gone. After a read behind the cursor the cursor
is where it was. After a read ahead of it the cursor stands at the number of discs that could not be
read, and only numbers beyond that are read until it is time to look behind the cursor. -/
theorem failed_read_takes_the_cursor_along {timing : Timing} {s : Scheduler}
    {st : Store × List Disturbance} (h : Reachable contended timing s st) {id : Identity}
    {c : Client} (hc : s.client? id = some c) {now : Instant} {d : ℕ} {e : StoreError}
    (hread : (d, some e) ∈ s.reads disturbedStorage id now st) :
    ∃ s' st', s.nextJob disturbedStorage id now st = (.error (.store e), s', st') ∧
      (0 ≤ timing.inactivity → s'.client? id = some { c with lastContact := now }) ∧
      (∃ back, s'.queue = back ++ s.queue ∧ ∀ j ∈ back, ∃ gone ∈ s.clients,
        gone.job = some j ∧ s'.client? gone.id = none) ∧
      ((s'.cursor = s.cursor ∧ ∃ cursor, s.cursor = some cursor ∧ d < cursor) ∨
        (s'.cursor = some d ∧ s.nextDiscs ≤ d ∧ s'.queue = [] ∧
          ∀ id' now' st'', isDue s'.lastRescan timing.rescanInterval now' = false →
            ∀ read ∈ s'.reads disturbedStorage id' now' st'', d < read.1)) := by
  obtain ⟨hs, -⟩ := holds_of_reachable sound_contended h
  have htouch := hs.touch id now
  obtain ⟨hanswer, hqueue, hcursor⟩ := (nextJob_reads disturbedStorage s id now st).2.2 d e hread
  obtain ⟨queue, cursor, last, hprepare⟩ := exists_prepare_eq disturbedStorage s id now st
  have hclient : ∀ i, (s.prepare disturbedStorage id now st).2.1.client? i =
      ((s.touch id now).prune now).client? i := by
    intro i
    rw [hprepare]
    rfl
  have htiming : (s.prepare disturbedStorage id now st).2.1.timing = timing := by
    rw [hprepare, ← timing_of_reachable h]
    exact timing_prune _ _
  refine ⟨_, _, hanswer, fun hinactivity => ?_, ?_, ?_⟩
  · rw [hclient]
    refine client?_prune htouch.ids ?_ (client?_touch hc now) rfl
    rw [← timing_of_reachable h] at hinactivity
    exact hinactivity
  · obtain ⟨back, hback, hgone⟩ := exists_queue_prune htouch now
    refine ⟨back, hqueue.trans hback, fun j hj => ?_⟩
    obtain ⟨gone, hmem, hjob, hnone⟩ := hgone j hj
    obtain ⟨known, hknown, hid, hsame⟩ := exists_of_mem_clients_touch hmem
    exact ⟨known, hknown, hsame.trans hjob, by rw [hclient, hid, hnone]⟩
  · rcases hcursor with ⟨hsame, cursor, hbehind⟩ | ⟨hmoved, hahead, hempty⟩
    · rw [cursor_prune] at hsame hbehind
      exact .inl ⟨hsame, cursor, hbehind⟩
    · refine .inr ⟨hmoved, nextDiscs_prune (s.touch id now) now ▸ hahead, hqueue.trans hempty, ?_⟩
      intro id' now' st'' hdue read hmem
      have hle := (nextJob_reads disturbedStorage _ id' now' st'').2.1 (by rwa [htiming]) read hmem
      rw [nextDiscs, hmoved] at hle
      exact (le_max_left _ _).trans hle

/-- The first client works on the beginning of the game, and the read of the next number of discs
fails for the second one, which then holds nothing, as before. -/
theorem failed_read_takes_the_cursor_along_past_the_first_job :
    ∃ s st s' st', Reachable contended {} s st ∧ s.held = [.start] ∧ s.cursor = some 4 ∧
      (5, some .database) ∈ s.reads disturbedStorage ⟨1⟩ 2 st ∧
      s.nextJob disturbedStorage ⟨1⟩ 2 st = (.error (.store .database), s', st') ∧
      s'.client? ⟨1⟩ = some ⟨⟨1⟩, ⟨"second", ""⟩, 2, none, 0⟩ ∧ s'.cursor = some 5 := by
  have h₀ : Reachable contended {} (start {})
      (Store.filled [⟨.start, 16, 16, .p73, 0, []⟩], [⟨[], none⟩, ⟨[], some .database⟩]) :=
    .start ⟨_, rfl⟩
  have hfirst : (start {}).client? ⟨0⟩ = none := rfl
  have h₁ := h₀.register hfirst ⟨"first", ""⟩ 0
  have hsecond : ((start {}).register ⟨0⟩ ⟨"first", ""⟩ 0).client? ⟨1⟩ = none := rfl
  have h₃ := (h₁.register hsecond ⟨"second", ""⟩ 0).nextJob ⟨0⟩ 1
  obtain ⟨s', st', hanswer, hcaller, -, hcursor⟩ :=
    failed_read_takes_the_cursor_along h₃
      (by decide +kernel : client? _ ⟨1⟩ = some ⟨⟨1⟩, ⟨"second", ""⟩, 0, none, 0⟩)
      (by decide +kernel : (5, some .database) ∈ reads disturbedStorage _ _ 2 _)
  refine ⟨_, _, s', st', h₃, by decide +kernel, by decide +kernel, by decide +kernel, hanswer,
    hcaller (by decide), ?_⟩
  rcases hcursor with ⟨-, cursor, hbefore, hlt⟩ | ⟨hmoved, -⟩
  · have hfour : some cursor = some 4 := hbefore.symm.trans (by decide +kernel)
    cases hfour
    omega
  · exact hmoved

/-- The first read of a fresh scheduler fails. The cursor has moved to the number of discs that
could not be read, and the request that follows is told that there is no job, while the beginning of
the game is work that nobody holds and that does not wait in the queue. -/
theorem cursor_passes_a_failed_read :
    ∃ s st s' st', Reachable contended {} s st ∧ s.cursor = none ∧
      (4, some .database) ∈ s.reads disturbedStorage ⟨0⟩ 1 st ∧
      s.nextJob disturbedStorage ⟨0⟩ 1 st = (.error (.store .database), s', st') ∧
      s'.cursor = some 4 ∧
      (s'.nextJob disturbedStorage ⟨0⟩ 2 st').1 = .ok none ∧
      (s'.nextJob disturbedStorage ⟨0⟩ 2 st').2.1.jobs = [] ∧
      (s'.nextJob disturbedStorage ⟨0⟩ 2 st').2.2.1.Work .start := by
  have h₀ : Reachable contended {} (start {})
      (Store.filled [⟨.start, 16, 16, .p73, 0, []⟩], [⟨[], some .database⟩]) := .start ⟨_, rfl⟩
  have hnew : (start {}).client? ⟨0⟩ = none := rfl
  have h₁ := h₀.register hnew ⟨"only", ""⟩ 0
  exact ⟨_, _, _, _, h₁, rfl, by decide +kernel, Prod.ext (by decide +kernel) rfl,
    by decide +kernel, by decide +kernel, by decide +kernel, by decide +kernel⟩

end Scheduler
end OthelloBook
