import OthelloBook.Worker.Basic

/-!
# A rehearsed book

A book that answers a worker from lists, for trying out a worker. A list that has no more answers
gives success, and no more jobs.
-/
namespace OthelloBook

structure RehearsedBook where
  /-- Failures of introductions; the others succeed. -/
  registers : List (Option AccessError) := []
  jobs : List (Except AccessError (Option Job)) := []
  results : List (Option AccessError) := []
  /-- Failures of heartbeats. -/
  heartbeatFailure : Option AccessError := none
  /-- Who was introduced, the last one first. -/
  introduced : List Introduction := []
  /-- The results that were taken, the last one first. -/
  submitted : List (String × Evaluation) := []
  /-- Who sent heartbeats, the last one first. -/
  heard : List String := []
  /-- Whether a job was asked for when there was none left. -/
  exhausted : Bool := false

namespace RehearsedBook

def next : List (Option AccessError) → Except AccessError Unit × List (Option AccessError)
  | [] => (.ok (), [])
  | none :: rest => (.ok (), rest)
  | some e :: rest => (.error e, rest)

def register (who : Introduction) (b : RehearsedBook) :
    Except AccessError String × RehearsedBook :=
  let (answer, rest) := next b.registers
  let b := { b with registers := rest }
  match answer with
  | .error e => (.error e, b)
  | .ok () =>
    let b := { b with introduced := who :: b.introduced }
    (.ok ("client-" ++ toString b.introduced.length), b)

def job (b : RehearsedBook) : Except AccessError (Option Job) × RehearsedBook :=
  match b.jobs with
  | [] => (.ok none, { b with exhausted := true })
  | answer :: rest => (answer, { b with jobs := rest })

def submit (id : String) (r : JobResult) (b : RehearsedBook) :
    Except AccessError Unit × RehearsedBook :=
  let (answer, rest) := next b.results
  let b := { b with results := rest }
  match answer with
  | .error e => (.error e, b)
  | .ok () => (.ok (), { b with submitted := (id, r.evaluation) :: b.submitted })

def heartbeat (id : String) (b : RehearsedBook) : Except AccessError Unit × RehearsedBook :=
  (match b.heartbeatFailure with | some e => .error e | none => .ok (),
    { b with heard := id :: b.heard })

/-- The rehearsed book as a worker sees it; it has nothing to look up. -/
def access : BookAccess RehearsedBook where
  register := register
  heartbeat := heartbeat
  job _ := job
  submit := submit
  lookup _ b := (.ok [], b)
  sendEvaluations es b := (.ok es.length, b)

/-- A number of rounds in which the lists are used up for certain. -/
def rounds (b : RehearsedBook) : Nat := b.registers.length + b.jobs.length + 1

end RehearsedBook
end OthelloBook
