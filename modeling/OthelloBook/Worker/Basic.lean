import OthelloBook.Worker.Access

/-!
# Workers

A worker fetches a job, searches it and reports the result, again and again. It introduces itself
once and keeps its identity until the book rejects it. In a failed round nothing is repeated: the
next round starts with another job.
-/
namespace OthelloBook

/-- What a worker says of itself, and how long it waits after a failure, in milliseconds. -/
structure WorkerSettings where
  introduction : Introduction
  minBackoff : Nat := 5000
  maxBackoff : Nat := 10000
  deriving DecidableEq, Repr

inductive Round where
  /-- There was no work. -/
  | idle
  /-- A job was done, in this many seconds. -/
  | computed (job : Job) (seconds : Float)

structure Workplace (σ τ : Type) where
  identity : Option String
  book : σ
  engine : τ

structure Worker (σ τ : Type) where
  settings : WorkerSettings
  book : BookAccess σ
  engine : Engine τ

namespace Worker

/-- The identity of the worker, who introduces itself if it has none. -/
def identify (k : Worker σ τ) (w : Workplace σ τ) : Except WorkError String × Workplace σ τ :=
  match w.identity with
  | some id => (.ok id, w)
  | none =>
    match k.book.register k.settings.introduction w.book with
    | (.ok id, st) => (.ok id, { w with identity := some id, book := st })
    | (.error e, st) => (.error (.access e), { w with book := st })

/-- Searches a job and reports the result; the search takes this many seconds. -/
def perform (k : Worker σ τ) (id : String) (job : Job) (seconds : Float) (w : Workplace σ τ) :
    Except WorkError Round × Workplace σ τ :=
  match k.engine.evaluate job.position job.level w.engine with
  | (.error e, en) => (.error (.engine e), { w with engine := en })
  | (.ok e, en) =>
    match k.book.submit id ⟨e, seconds⟩ w.book with
    | (.error e, st) => (.error (.access e), { w with book := st, engine := en })
    | (.ok (), st) => (.ok (.computed job seconds), { w with book := st, engine := en })

/-- One round: at most one job is fetched and done. -/
def round (k : Worker σ τ) (seconds : Float) (w : Workplace σ τ) :
    Except WorkError Round × Workplace σ τ :=
  match k.identify w with
  | (.error e, w) => (.error e, w)
  | (.ok id, w) =>
    match k.book.job id w.book with
    | (.error e, st) => (.error (.access e), { w with book := st })
    | (.ok none, st) => (.ok .idle, { w with book := st })
    | (.ok (some job), st) => k.perform id job seconds { w with book := st }

/-- How long to wait after a failure. Whoever is not known registers again at once; after any other
failure the time is drawn between two bounds. -/
def backoff (s : WorkerSettings) (draw : Nat) : WorkError → Nat
  | .access .unauthorized => 0
  | _ => max s.minBackoff (min draw s.maxBackoff)

/-- What becomes of the identity after a failure: only a rejected one is dropped. -/
def keepIdentity (id : Option String) : WorkError → Option String
  | .access .unauthorized => none
  | _ => id

def recover (e : WorkError) (w : Workplace σ τ) : Workplace σ τ :=
  { w with identity := keepIdentity w.identity e }

/-- A round, after which a failure is dealt with. -/
def turn (k : Worker σ τ) (seconds : Float) (w : Workplace σ τ) : Workplace σ τ :=
  match k.round seconds w with
  | (.error e, w) => recover e w
  | (.ok _, w) => w

/-- Turns until the book says that the day is over, at most `n`. -/
def turns (k : Worker σ τ) (isOver : σ → Bool) (seconds : Float) :
    Nat → Workplace σ τ → Workplace σ τ
  | 0, w => w
  | n + 1, w =>
    let w := k.turn seconds w
    if isOver w.book then w else turns k isOver seconds n w

/-- Tells the book that the worker is alive; without an identity there is nothing to tell, and a
failure does not matter. -/
def beat (book : BookAccess σ) (identity : Option String) (st : σ) : σ :=
  match identity with
  | none => st
  | some id => (book.heartbeat id st).2

def beats (book : BookAccess σ) (identity : Option String) : Nat → σ → σ
  | 0, st => st
  | n + 1, st => beats book identity n (beat book identity st)

end Worker
end OthelloBook
