import OthelloBook.Scheduler.Basic

/-!
# Assignments

How jobs come to clients and results come back. The queue is filled with the positions of one
number of discs that need a search and that nobody works on; when it is empty the cursor moves on
to the next number with such positions. From time to time the numbers behind the cursor are looked
through again. Each step gives the state after it also when it fails.
-/
namespace OthelloBook.Scheduler

/-- The cursor after the last number of discs. -/
def pastLast : Nat := Level.maxDiscs + 1

/-- The work at a number of discs that no client holds. -/
def loadJobs (storage : Storage σ) (s : Scheduler) (discs : Nat) (st : σ) :
    Except StoreError (List Job) × σ :=
  let (answer, st) := storage.worklist discs (Level.target discs) st
  (answer.map fun ps => (ps.filter fun p => p ∉ s.held).map fun p => ⟨p, Level.target discs⟩, st)

/-- Moves the cursor along these numbers of discs until there is work, and fills the queue with
it; says whether there was any. -/
def fill (storage : Storage σ) : List Nat → Scheduler → σ → Except StoreError Bool × Scheduler × σ
  | [], s, st => (.ok false, { s with cursor := some pastLast }, st)
  | discs :: rest, s, st =>
    match loadJobs storage s discs st with
    | (.error e, st) => (.error e, { s with cursor := some discs }, st)
    | (.ok [], st) => fill storage rest { s with cursor := some discs } st
    | (.ok jobs, st) => (.ok true, { s with cursor := some discs, queue := jobs }, st)

def discsFrom (first past : Nat) : List Nat := List.range' first (past - first)

def nextDiscs (s : Scheduler) : Nat :=
  match s.cursor with
  | none => Level.minDiscs
  | some c => max (c + 1) Level.minDiscs

def takeJob (storage : Storage σ) (s : Scheduler) (st : σ) :
    Except StoreError (Option Job) × Scheduler × σ :=
  match s.queue with
  | j :: queue => (.ok (some j), { s with queue := queue }, st)
  | [] =>
    match fill storage (discsFrom s.nextDiscs pastLast) s st with
    | (.error e, s, st) => (.error e, s, st)
    | (.ok _, s, st) => (.ok s.queue.head?, { s with queue := s.queue.tail }, st)

/-- Looks for work at these numbers of discs; the first one with any becomes the cursor, and its
work the queue. -/
def rewind (storage : Storage σ) : List Nat → Scheduler → σ → Except StoreError Unit × Scheduler × σ
  | [], s, st => (.ok (), s, st)
  | discs :: rest, s, st =>
    match loadJobs storage s discs st with
    | (.error e, st) => (.error e, s, st)
    | (.ok [], st) => rewind storage rest s st
    | (.ok jobs, st) => (.ok (), { s with cursor := some discs, queue := jobs }, st)

def rescan (storage : Storage σ) (s : Scheduler) (now : Instant) (st : σ) :
    Except StoreError Unit × Scheduler × σ :=
  if isDue s.lastRescan s.timing.rescanInterval now then
    let s := { s with lastRescan := some now }
    match s.cursor with
    | none => (.ok (), s, st)
    | some c => rewind storage (discsFrom Level.minDiscs (min c pastLast)) s st
  else (.ok (), s, st)

/-- Gives a client a job, or none, in place of the one that it held. A job that it held and is not
given again goes back to the queue. -/
def assign (s : Scheduler) (c : Client) (job : Option Job) : Scheduler :=
  let s := s.modifyClient c.id fun c => { c with job := job }
  match c.job with
  | none => s
  | some previous => if some previous = job then s else { s with queue := requeue s.queue previous }

/-- Hands a client its next job. There is none once all numbers of discs are exhausted. -/
def nextJob (storage : Storage σ) (s : Scheduler) (id : Identity) (now : Instant) (st : σ) :
    Except SchedulerError (Option Job) × Scheduler × σ :=
  match s.client? id with
  | none => (.error (.unknownClient id), s, st)
  | some _ =>
    match rescan storage ((s.touch id now).prune now) now st with
    | (.error e, s, st) => (.error (.store e), s, st)
    | (.ok _, s, st) =>
      match takeJob storage s st with
      | (.error e, s, st) => (.error (.store e), s, st)
      | (.ok job, s, st) =>
        match s.client? id with
        | none => (.error (.unknownClient id), s, st)
        | some c => (.ok job, s.assign c job, st)

def submit (storage : Storage σ) (s : Scheduler) (id : Identity) (e : Evaluation) (now : Instant)
    (st : σ) : Except SchedulerError SaveOutcome × Scheduler × σ :=
  match s.client? id with
  | none => (.error (.unknownClient id), s, st)
  | some _ =>
    let (answer, st) := storage.save e st
    (answer.mapError .store, s.modifyClient id fun c => c.done e now, st)

end OthelloBook.Scheduler
