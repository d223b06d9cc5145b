import OthelloBook.Proofs.Scheduler.Jobs

/-!
# How a request for a job proceeds

A request is prepared, and then a job is handed out. The preparation hears of the caller, removes
the silent clients and looks for work; all that it does to the queue then is to replace it by what a
search along numbers of discs has found. The handing out takes the first job of the queue and gives
back the one that the caller held.
-/
namespace OthelloBook.Scheduler

section Search

variable {σ : Type} (storage : Storage σ) (s : Scheduler)

/-- The first of these numbers of discs with work that no client holds, and this work. An error
comes with the number at which it came up. -/
def search : List ℕ → σ → Except (ℕ × StoreError) (Option (ℕ × List Job)) × σ
  | [], st => (.ok none, st)
  | discs :: rest, st =>
    match loadJobs storage s discs st with
    | (.error e, st) => (.error (discs, e), st)
    | (.ok [], st) => search rest st
    | (.ok jobs, st) => (.ok (some (discs, jobs)), st)

theorem rewind_eq_search (ds : List ℕ) (st : σ) :
    rewind storage ds s st =
      match search storage s ds st with
      | (.error (_, e), st) => (.error e, s, st)
      | (.ok none, st) => (.ok (), s, st)
      | (.ok (some (discs, jobs)), st) =>
        (.ok (), { s with cursor := some discs, queue := jobs }, st) := by
  induction ds generalizing st with
  | nil => rfl
  | cons discs rest ih =>
    rw [rewind, search]
    rcases loadJobs storage s discs st with ⟨e | (_ | ⟨j, js⟩), st'⟩
    · rfl
    · exact ih st'
    · rfl

theorem fill_eq_search (ds : List ℕ) (st : σ) :
    fill storage ds s st =
      match search storage s ds st with
      | (.error (discs, e), st) => (.error e, { s with cursor := some discs }, st)
      | (.ok none, st) => (.ok false, { s with cursor := some pastLast }, st)
      | (.ok (some (discs, jobs)), st) =>
        (.ok true, { s with cursor := some discs, queue := jobs }, st) := by
  -- The cursor moves while the numbers are tried, but no search depends on it.
  suffices h : ∀ c, fill storage ds { s with cursor := c } st = _ from h s.cursor
  induction ds generalizing st with
  | nil => exact fun _ => rfl
  | cons discs rest ih =>
    intro c
    have hload : loadJobs storage { s with cursor := c } discs st =
        loadJobs storage s discs st := rfl
    rw [fill, search, hload]
    rcases loadJobs storage s discs st with ⟨e | (_ | ⟨j, js⟩), st'⟩
    · rfl
    · exact ih st' (some discs)
    · rfl

end Search

section Phases

variable {σ : Type} (storage : Storage σ) (s : Scheduler)

variable {s} {now : Instant}

theorem rescan_of_not_due (hdue : isDue s.lastRescan s.timing.rescanInterval now = false) (st : σ) :
    rescan storage s now st = (.ok (), s, st) := by
  rw [rescan, if_neg (by simp [hdue])]

theorem rescan_of_no_cursor (hdue : isDue s.lastRescan s.timing.rescanInterval now = true)
    (hcursor : s.cursor = none) (st : σ) :
    rescan storage s now st = (.ok (), { s with lastRescan := some now }, st) := by
  rw [rescan, if_pos hdue]
  simp [hcursor]

theorem rescan_of_cursor (hdue : isDue s.lastRescan s.timing.rescanInterval now = true) {c : ℕ}
    (hcursor : s.cursor = some c) (st : σ) :
    rescan storage s now st = rewind storage (discsFrom Level.minDiscs (min c pastLast))
      { s with lastRescan := some now } st := by
  rw [rescan, if_pos hdue]
  simp [hcursor]

variable (s)

def refill (st : σ) : Except StoreError Unit × Scheduler × σ :=
  match s.queue with
  | _ :: _ => (.ok (), s, st)
  | [] =>
    let (answer, s, st) := fill storage (discsFrom s.nextDiscs pastLast) s st
    (answer.map fun _ => (), s, st)

theorem refill_of_nil (hqueue : s.queue = []) (st : σ) :
    refill storage s st =
      ((fill storage (discsFrom s.nextDiscs pastLast) s st).1.map fun _ => (),
        (fill storage (discsFrom s.nextDiscs pastLast) s st).2) := by
  rw [refill, hqueue]

theorem refill_of_ne_nil (hqueue : s.queue ≠ []) (st : σ) :
    refill storage s st = (.ok (), s, st) := by
  obtain ⟨j, js, hqueue⟩ := List.exists_cons_of_ne_nil hqueue
  rw [refill, hqueue]

/-- All that a request does before it takes a job. -/
def prepare (id : Identity) (now : Instant) (st : σ) : Except StoreError Unit × Scheduler × σ :=
  match rescan storage ((s.touch id now).prune now) now st with
  | (.error e, s, st) => (.error e, s, st)
  | (.ok _, s, st) => refill storage s st

def handOut (id : Identity) : Except SchedulerError (Option Job) × Scheduler :=
  let rest := { s with queue := s.queue.tail }
  match s.client? id with
  | none => (.error (.unknownClient id), rest)
  | some c => (.ok s.queue.head?, rest.assign c s.queue.head?)

/-- A look behind the cursor touches neither the clients nor the time of the last sweep. -/
theorem exists_rescan_eq (now : Instant) (st : σ) :
    ∃ queue cursor last, (rescan storage s now st).2.1 =
      { s with queue := queue, cursor := cursor, lastRescan := last } := by
  cases hdue : isDue s.lastRescan s.timing.rescanInterval now with
  | false => exact ⟨_, _, _, congrArg (fun x => x.2.1) (rescan_of_not_due storage hdue st)⟩
  | true =>
    rcases Option.eq_none_or_eq_some s.cursor with hcursor | ⟨c, hcursor⟩
    · exact ⟨_, _, _, congrArg (fun x => x.2.1) (rescan_of_no_cursor storage hdue hcursor st)⟩
    · rw [rescan_of_cursor storage hdue hcursor, rewind_eq_search]
      rcases search storage { s with lastRescan := some now }
        (discsFrom Level.minDiscs (min c pastLast)) st with ⟨⟨d, e⟩ | (_ | ⟨d, js⟩), st'⟩
      · exact ⟨_, _, _, rfl⟩
      · exact ⟨_, _, _, rfl⟩
      · exact ⟨_, _, _, rfl⟩

theorem exists_refill_eq (st : σ) :
    ∃ queue cursor, (refill storage s st).2.1 = { s with queue := queue, cursor := cursor } := by
  by_cases hqueue : s.queue = []
  · rw [refill_of_nil storage s hqueue, fill_eq_search]
    rcases search storage s (discsFrom s.nextDiscs pastLast) st with
      ⟨⟨d, e⟩ | (_ | ⟨d, js⟩), st'⟩
    · exact ⟨_, _, rfl⟩
    · exact ⟨_, _, rfl⟩
    · exact ⟨_, _, rfl⟩
  · rw [refill_of_ne_nil storage s hqueue]
    exact ⟨_, _, rfl⟩

theorem exists_prepare_eq (id : Identity) (now : Instant) (st : σ) :
    ∃ queue cursor last, (prepare storage s id now st).2.1 =
      { (s.touch id now).prune now with
        queue := queue, cursor := cursor, lastRescan := last } := by
  obtain ⟨queue, cursor, last, hrescan⟩ :=
    exists_rescan_eq storage ((s.touch id now).prune now) now st
  rw [prepare]
  generalize rescan storage ((s.touch id now).prune now) now st = rescanned at hrescan ⊢
  obtain ⟨e | u, s₁, st₁⟩ := rescanned
  · exact ⟨queue, cursor, last, hrescan⟩
  · obtain ⟨queue, cursor, hrefill⟩ := exists_refill_eq storage s₁ st₁
    obtain rfl : s₁ = _ := hrescan
    exact ⟨queue, cursor, last, hrefill⟩

theorem takeJob_eq_refill (st : σ) :
    takeJob storage s st =
      match refill storage s st with
      | (.error e, s, st) => (.error e, s, st)
      | (.ok _, s, st) => (.ok s.queue.head?, { s with queue := s.queue.tail }, st) := by
  rw [takeJob, refill]
  cases hqueue : s.queue with
  | nil => rcases fill storage (discsFrom s.nextDiscs pastLast) s st with ⟨e | b, s', st'⟩ <;> rfl
  | cons j js => simp [hqueue]

/-- A request of a registered client is prepared, and then a job is handed out. -/
theorem nextJob_eq_handOut (id : Identity) (now : Instant) (st : σ) :
    nextJob storage s id now st =
      match s.client? id with
      | none => (.error (.unknownClient id), s, st)
      | some _ =>
        match prepare storage s id now st with
        | (.error e, s, st) => (.error (.store e), s, st)
        | (.ok _, s, st) => ((s.handOut id).1, (s.handOut id).2, st) := by
  rw [nextJob, prepare]
  cases s.client? id with
  | none => rfl
  | some _ =>
    dsimp only
    rcases rescan storage ((s.touch id now).prune now) now st with ⟨e | u, s', st'⟩
    · rfl
    · dsimp only
      rw [takeJob_eq_refill]
      rcases refill storage s' st' with ⟨e | u, s'', st''⟩
      · rfl
      · simp only [handOut, client?]
        cases s''.clients.find? fun c => c.id = id <;> rfl

theorem cursor_handOut (id : Identity) : (s.handOut id).2.cursor = s.cursor := by
  rw [handOut]
  cases s.client? id with
  | none => rfl
  | some c => exact cursor_assign _ c _

theorem timing_handOut (id : Identity) : (s.handOut id).2.timing = s.timing := by
  rw [handOut]
  cases s.client? id with
  | none => rfl
  | some c => exact timing_assign _ c _

theorem ids_handOut (id : Identity) :
    (s.handOut id).2.clients.map Client.id = s.clients.map Client.id := by
  rw [handOut]
  cases s.client? id with
  | none => rfl
  | some c => exact ids_assign _ c _

theorem answer_handOut {id : Identity} {c : Client} (hc : s.client? id = some c) :
    (s.handOut id).1 = .ok s.queue.head? := by
  simp only [handOut, hc]

/-- The handing out changes the job of the caller, and no other client. -/
theorem client?_handOut {id : Identity} {c : Client} (hc : s.client? id = some c) (i : Identity) :
    (s.handOut id).2.client? i =
      (s.client? i).map fun c => if c.id = id then { c with job := s.queue.head? } else c := by
  obtain rfl := id_of_client? hc
  simp only [handOut, hc, client?_assign]
  exact client?_modifyClient (f := fun c => { c with job := s.queue.head? }) (fun _ => rfl) i

theorem lastPrune_handOut (id : Identity) : (s.handOut id).2.lastPrune = s.lastPrune := by
  rw [handOut]
  cases s.client? id with
  | none => rfl
  | some c => exact lastPrune_assign _ c _

/-- Once the sweep is over, a request of a registered client changes no client but for the job of
the caller. -/
theorem exists_nextJob_client {id : Identity} {c : Client} (hc : s.client? id = some c)
    (now : Instant) (st : σ) :
    ∃ f : Client → Client, (∀ c, (f c).lastContact = c.lastContact) ∧
      (∀ i, (s.nextJob storage id now st).2.1.client? i =
        (((s.touch id now).prune now).client? i).map fun c => if c.id = id then f c else c) ∧
      (s.nextJob storage id now st).2.1.lastPrune = ((s.touch id now).prune now).lastPrune := by
  obtain ⟨queue, cursor, last, hprepare⟩ := exists_prepare_eq storage s id now st
  have hsame : ∀ i, (((s.touch id now).prune now).client? i).map
      (fun c => if c.id = id then c else c) = ((s.touch id now).prune now).client? i := by simp
  rw [nextJob_eq_handOut, hc]
  generalize s.prepare storage id now st = prepared at hprepare ⊢
  obtain ⟨e | u, s', st'⟩ := prepared
  · obtain rfl : s' = _ := hprepare
    exact ⟨fun c => c, fun _ => rfl, fun i => (hsame i).symm, rfl⟩
  · have hclient : ∀ i, s'.client? i = ((s.touch id now).prune now).client? i := fun i => by
      rw [show s' = _ from hprepare]
      rfl
    have hlast : s'.lastPrune = ((s.touch id now).prune now).lastPrune := by
      rw [show s' = _ from hprepare]
    cases hcaller : s'.client? id with
    | none =>
      refine ⟨fun c => c, fun _ => rfl, fun i => ?_, (lastPrune_handOut s' id).trans hlast⟩
      simp only [handOut, hcaller]
      exact (hclient i).trans (hsame i).symm
    | some d =>
      refine ⟨fun c => { c with job := s'.queue.head? }, fun _ => rfl, fun i => ?_,
        (lastPrune_handOut s' id).trans hlast⟩
      rw [← hclient]
      exact client?_handOut s' hcaller i

theorem nextJob_of_unknown {id : Identity} (hc : s.client? id = none) (now : Instant) (st : σ) :
    nextJob storage s id now st = (.error (.unknownClient id), s, st) := by
  rw [nextJob, hc]

theorem timing_nextJob (id : Identity) (now : Instant) (st : σ) :
    (nextJob storage s id now st).2.1.timing = s.timing := by
  obtain ⟨queue, cursor, last, hprepare⟩ := exists_prepare_eq storage s id now st
  have hprepared : (prepare storage s id now st).2.1.timing = s.timing := by
    rw [hprepare]
    exact timing_prune _ _
  rw [nextJob_eq_handOut]
  cases s.client? id with
  | none => rfl
  | some c =>
    generalize prepare storage s id now st = prepared at hprepared ⊢
    obtain ⟨e | u, s', st'⟩ := prepared
    · exact hprepared
    · exact (timing_handOut s' id).trans hprepared

theorem ids_nextJob (id : Identity) (now : Instant) (st : σ) :
    ((nextJob storage s id now st).2.1.clients.map Client.id).Sublist
      (s.clients.map Client.id) := by
  obtain ⟨queue, cursor, last, hprepare⟩ := exists_prepare_eq storage s id now st
  have hprepared : ((prepare storage s id now st).2.1.clients.map Client.id).Sublist
      (s.clients.map Client.id) := by
    have htouch : (s.touch id now).clients.map Client.id = s.clients.map Client.id := ids_touch
    rw [hprepare, ← htouch]
    exact clients_prune.map Client.id
  rw [nextJob_eq_handOut]
  cases s.client? id with
  | none => exact List.Sublist.refl _
  | some c =>
    generalize prepare storage s id now st = prepared at hprepared ⊢
    obtain ⟨e | u, s', st'⟩ := prepared
    · exact hprepared
    · exact (ids_handOut s' id) ▸ hprepared

/-- All that a request does before it takes a job leaves the caller registered. -/
theorem client?_prepare (hids : (s.clients.map Client.id).Nodup)
    (htiming : 0 ≤ s.timing.inactivity) {id : Identity} {c : Client} (hc : s.client? id = some c)
    (now : Instant) (st : σ) :
    (prepare storage s id now st).2.1.client? id = some { c with lastContact := now } := by
  obtain ⟨queue, cursor, last, hprepare⟩ := exists_prepare_eq storage s id now st
  have hids' : ((s.touch id now).clients.map Client.id).Nodup := by rwa [ids_touch]
  rw [hprepare]
  exact client?_prune (s := s.touch id now) hids' htiming (client?_touch hc now) rfl

/-- The request of a registered client fails only if the storage does. -/
theorem exists_store_of_nextJob_error (hids : (s.clients.map Client.id).Nodup)
    (htiming : 0 ≤ s.timing.inactivity) {id : Identity} {c : Client} (hc : s.client? id = some c)
    {now : Instant} {st : σ} {e : SchedulerError}
    (h : (nextJob storage s id now st).1 = .error e) : ∃ x, e = .store x := by
  have hcaller := client?_prepare storage s hids htiming hc now st
  rw [nextJob_eq_handOut, hc] at h
  generalize prepare storage s id now st = prepared at h hcaller
  obtain ⟨x | u, s', st'⟩ := prepared
  · exact ⟨x, (Except.error.inj h).symm⟩
  · dsimp only at h
    rw [answer_handOut s' hcaller] at h
    cases h

end Phases

section Reading

variable {σ : Type} {storage : Storage σ} {s : Scheduler} {st : σ} {P : σ → Prop}
  (hreads : ∀ discs level st, P st → P (storage.worklist discs level st).2)

include hreads

theorem search_keeps {ds : List ℕ} (h : P st) : P (search storage s ds st).2 := by
  induction ds generalizing st with
  | nil => exact h
  | cons discs rest ih =>
    have hload : P (loadJobs storage s discs st).2 := hreads _ _ _ h
    rw [search]
    generalize loadJobs storage s discs st = loaded at hload ⊢
    obtain ⟨e | (_ | ⟨j, js⟩), st'⟩ := loaded
    · exact hload
    · exact ih hload
    · exact hload

theorem rescan_keeps (now : Instant) (h : P st) : P (rescan storage s now st).2.2 := by
  cases hdue : isDue s.lastRescan s.timing.rescanInterval now with
  | false =>
    rw [rescan_of_not_due storage hdue]
    exact h
  | true =>
    rcases Option.eq_none_or_eq_some s.cursor with hcursor | ⟨c, hcursor⟩
    · rw [rescan_of_no_cursor storage hdue hcursor]
      exact h
    · rw [rescan_of_cursor storage hdue hcursor, rewind_eq_search]
      have hsearch : P (search storage { s with lastRescan := some now }
        (discsFrom Level.minDiscs (min c pastLast)) st).2 := search_keeps hreads h
      generalize search storage _ _ st = found at hsearch ⊢
      obtain ⟨⟨d, e⟩ | (_ | ⟨d, js⟩), st'⟩ := found <;> exact hsearch

theorem refill_keeps (h : P st) : P (refill storage s st).2.2 := by
  by_cases hqueue : s.queue = []
  · rw [refill_of_nil storage s hqueue, fill_eq_search]
    have hsearch : P (search storage s (discsFrom s.nextDiscs pastLast) st).2 :=
      search_keeps hreads h
    generalize search storage _ _ st = found at hsearch ⊢
    obtain ⟨⟨d, e⟩ | (_ | ⟨d, js⟩), st'⟩ := found <;> exact hsearch
  · rw [refill_of_ne_nil storage s hqueue]
    exact h

/-- A request for a job does with the storage nothing but read. -/
theorem nextJob_keeps (id : Identity) (now : Instant) (h : P st) :
    P (nextJob storage s id now st).2.2 := by
  have hprepared : P (prepare storage s id now st).2.2 := by
    have hrescan : P (rescan storage ((s.touch id now).prune now) now st).2.2 :=
      rescan_keeps hreads now h
    rw [prepare]
    generalize rescan storage ((s.touch id now).prune now) now st = rescanned at hrescan ⊢
    obtain ⟨e | u, s', st'⟩ := rescanned
    · exact hrescan
    · exact refill_keeps hreads hrescan
  rw [nextJob_eq_handOut]
  cases s.client? id with
  | none => exact h
  | some c =>
    generalize prepare storage s id now st = prepared at hprepared ⊢
    obtain ⟨e | u, s', st'⟩ := prepared <;> exact hprepared

end Reading

end OthelloBook.Scheduler
