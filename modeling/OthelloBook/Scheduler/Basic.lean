import OthelloBook.Store.Query

/-!
# The scheduler

Who works for the book and on what. Clients register, are known by their identity, and hold at
most one job each. Jobs wait in a queue that is filled from one number of discs at a time; the
cursor is the number that it was last filled from. Clients that are silent for too long are
removed, and their jobs go back to the front of the queue. Those who watch the scheduler see
its clients by falling number of results.
-/
namespace OthelloBook

/-! ## Identities

The number by which a client is known. It is written as 32 hexadecimal digits in five groups, and
read in that form, without hyphens, in braces or after `urn:uuid:`. -/

structure Identity where
  bits : BitVec 128
  deriving DecidableEq, Repr

namespace Identity

/-- The numbers of digits between the hyphens. -/
def groupSizes : List Nat := [8, 4, 4, 4, 12]

def cutGroups : List Nat → List Char → List (List Char)
  | [], _ => []
  | n :: ns, cs => cs.take n :: cutGroups ns (cs.drop n)

def digitChars (id : Identity) : List Char := Text.hexFixed 32 id.bits.toNat

def groupedChars (id : Identity) : List Char :=
  ['-'].intercalate (cutGroups groupSizes id.digitChars)

def text (id : Identity) : String := String.ofList id.groupedChars

def ofDigits? (cs : List Char) : Option Identity :=
  if cs.length = 32 then (Text.digits? 16 cs).map fun n => ⟨BitVec.ofNat 128 n⟩ else none

def ofGroups? (cs : List Char) : Option Identity :=
  let groups := Text.pieces '-' cs
  if groups.map List.length = groupSizes then ofDigits? groups.flatten else none

def unbraced? : List Char → Option (List Char)
  | '\x7b' :: cs => if cs.getLast? = some '\x7d' then some cs.dropLast else none
  | _ => none

/-- The text after the name of the number scheme, which may be written in either case. -/
def unnamed? (cs : List Char) : Option (List Char) :=
  let name := "urn:uuid:".toList
  if (cs.take name.length).map Char.toLower = name then some (cs.drop name.length) else none

def parse? (s : String) : Option Identity :=
  let cs := s.toList
  (ofDigits? cs).or <| (ofGroups? cs).or <|
    ((unbraced? cs).bind ofGroups?).or ((unnamed? cs).bind ofGroups?)

end Identity

/-! ## Instants

Points in time, in milliseconds since the beginning of 1970, and their text: date and time of day
in UTC, with a fraction of the second only where it is not zero. -/

/-- Milliseconds since the beginning of 1970. -/
abbrev Instant := Int

namespace Instant

structure Date where
  year : Int
  month : Nat
  day : Nat
  deriving DecidableEq, Repr

/-- The date of a day, counted from the first of January 1970. Years are taken to begin in March,
so that a leap day is the last of its year, and 400 of them have 146097 days. -/
def Date.ofDay (day : Int) : Date :=
  let n := day + 719468
  let era := n / 146097
  let d := n % 146097
  let y := (d - d / 1460 + d / 36524 - d / 146096) / 365
  let dayOfYear := d - (365 * y + y / 4 - y / 100)
  let m := (5 * dayOfYear + 2) / 153
  let month := if m < 10 then m + 3 else m - 9
  ⟨y + 400 * era + (if month ≤ 2 then 1 else 0), month.toNat,
    (dayOfYear - (153 * m + 2) / 5 + 1).toNat⟩

def padded (width n : Nat) : String :=
  let s := toString n
  String.ofList (List.replicate (width - s.length) '0') ++ s

/-- A year of four digits; others have a sign. -/
def yearText (y : Int) : String :=
  if 0 ≤ y ∧ y ≤ 9999 then padded 4 y.toNat
  else (if y < 0 then "-" else "+") ++ padded 4 y.natAbs

def Date.text (d : Date) : String :=
  yearText d.year ++ "-" ++ padded 2 d.month ++ "-" ++ padded 2 d.day

def dayLength : Int := 86400000

def clockText (ms : Nat) : String :=
  let seconds := ms / 1000
  padded 2 (seconds / 3600) ++ ":" ++ padded 2 (seconds / 60 % 60) ++ ":" ++
    padded 2 (seconds % 60) ++ (if ms % 1000 = 0 then "" else "." ++ padded 3 (ms % 1000))

def text (t : Instant) : String :=
  (Date.ofDay (t / dayLength)).text ++ "T" ++ clockText (t % dayLength).toNat ++ "Z"

end Instant

/-! ## Clients and jobs -/

/-- How often the scheduler looks after its clients and its queue, in milliseconds. -/
structure Timing where
  /-- Clients that are silent for longer are removed. -/
  inactivity : Int := 300000
  /-- The least time between two sweeps. -/
  pruneInterval : Int := 30000
  /-- The least time between two searches for work behind the cursor. -/
  rescanInterval : Int := 60000
  deriving DecidableEq, Repr

structure Client where
  id : Identity
  introduction : Introduction
  lastContact : Instant
  job : Option Job
  computed : Nat
  deriving DecidableEq

/-- What is known of a client after it sent a result: its job is done if the result is for it. -/
def Client.done (c : Client) (e : Evaluation) (now : Instant) : Client :=
  { c with
    lastContact := now
    computed := c.computed + 1
    job := c.job.filter fun j => j.position ≠ e.position.canonical }

structure Scheduler where
  timing : Timing
  /-- The clients in the order in which they registered. -/
  clients : List Client
  queue : List Job
  cursor : Option Nat
  lastPrune : Option Instant
  lastRescan : Option Instant
  deriving DecidableEq

inductive SchedulerError where
  | unknownClient (id : Identity)
  | store (e : StoreError)
  deriving DecidableEq

namespace Scheduler

def start (timing : Timing) : Scheduler := ⟨timing, [], [], none, none, none⟩

def client? (s : Scheduler) (id : Identity) : Option Client := s.clients.find? fun c => c.id = id

def modifyClient (s : Scheduler) (id : Identity) (f : Client → Client) : Scheduler :=
  { s with clients := s.clients.map fun c => if c.id = id then f c else c }

def touch (s : Scheduler) (id : Identity) (now : Instant) : Scheduler :=
  s.modifyClient id fun c => { c with lastContact := now }

/-- Adds a client under an identity that no other client has. -/
def register (s : Scheduler) (id : Identity) (introduction : Introduction) (now : Instant) :
    Scheduler :=
  { s with clients := s.clients ++ [⟨id, introduction, now, none, 0⟩] }

def heartbeat (s : Scheduler) (id : Identity) (now : Instant) : Except SchedulerError Scheduler :=
  match s.client? id with
  | some _ => .ok (s.touch id now)
  | none => .error (.unknownClient id)

/-- The positions on which clients work. -/
def held (s : Scheduler) : List Position :=
  s.clients.filterMap fun c => c.job.map Job.position

/-- Puts a job at the front of a queue, unless it waits there. -/
def requeue (queue : List Job) (j : Job) : List Job := if j ∈ queue then queue else j :: queue

/-- Whether something that was last done at `last` may be done again. -/
def isDue (last : Option Instant) (interval : Int) (now : Instant) : Bool :=
  match last with
  | none => true
  | some t => decide (interval ≤ now - t)

def isSilent (s : Scheduler) (now : Instant) (c : Client) : Bool :=
  decide (s.timing.inactivity < now - c.lastContact)

/-- Removes the silent clients and gives their jobs back. -/
def sweep (s : Scheduler) (now : Instant) : Scheduler :=
  { s with
    clients := s.clients.filter fun c => !s.isSilent now c
    queue := ((s.clients.filter (s.isSilent now)).filterMap Client.job).foldl requeue s.queue
    lastPrune := some now }

def pruned (s : Scheduler) (now : Instant) : List Identity :=
  if isDue s.lastPrune s.timing.pruneInterval now then
    (s.clients.filter (s.isSilent now)).map Client.id
  else []

def prune (s : Scheduler) (now : Instant) : Scheduler :=
  if isDue s.lastPrune s.timing.pruneInterval now then s.sweep now else s

/-- Clients with more results come first, and those with as many by the texts of their identities. -/
def ranksBefore (a b : Client) : Bool :=
  decide (b.computed < a.computed) ||
    (decide (b.computed = a.computed) && decide (a.id.text ≤ b.id.text))

def ranking (s : Scheduler) : List Client := s.clients.mergeSort ranksBefore

def clientStatus (c : Client) : Json :=
  .obj [
    ("id", .str c.id.text),
    ("hostname", .str c.introduction.hostname),
    ("build_id", .str c.introduction.buildId),
    ("positions_computed", .nat c.computed),
    ("last_active", .str c.lastContact.text),
    ("job", .option Wire.ofJob c.job)]

def status (s : Scheduler) : Json :=
  .obj [
    ("active_clients", .nat s.clients.length),
    ("disc_count", .option .nat s.cursor),
    ("queue_length", .nat s.queue.length),
    ("client_stats", .arr (s.ranking.map clientStatus))]

end Scheduler

end OthelloBook
