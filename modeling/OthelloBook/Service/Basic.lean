import OthelloBook.Scheduler.Assignment

/-!
# The server

The scheduler and the store behind one desk, and the secrets that those who ask have to know. Each
request is answered in one step.
-/
namespace OthelloBook

/-- What has to be known to ask for work, and to see how things stand. -/
structure Credentials where
  token : String
  statsUser : String
  statsPassword : String
  deriving DecidableEq, Repr

structure Server where
  credentials : Credentials
  scheduler : Scheduler
  store : Store

inductive ServerError where
  | unknownClient (name : String)
  | invalidToken
  | invalidStatsCredentials
  | malformedBody
  | tooMany (items : String)
  | store (e : StoreError)
  deriving DecidableEq

namespace ServerError

def message : ServerError → String
  | .unknownClient name => "unknown client: " ++ name
  | .invalidToken => "invalid token"
  | .invalidStatsCredentials => "invalid stats credentials"
  | .malformedBody => "bad request"
  | .tooMany items => "bad request: at most " ++ toString maxBatch ++ " " ++ items ++ " per request"
  | .store .database => "database error"
  | .store (.corrupt e) => corruptMessage e

def status : ServerError → Nat
  | .unknownClient _ => 401
  | .invalidToken => 403
  | .invalidStatsCredentials => 401
  | .malformedBody => 400
  | .tooMany _ => 400
  | .store _ => 500

def ofScheduler : SchedulerError → ServerError
  | .unknownClient id => .unknownClient id.text
  | .store e => .store e

end ServerError

namespace Server

def start (credentials : Credentials) (timing : Timing) (store : Store) : Server :=
  ⟨credentials, .start timing, store⟩

def register (s : Server) (id : Identity) (who : Introduction) (now : Instant) : Server :=
  { s with scheduler := s.scheduler.register id who now }

def heartbeat (s : Server) (id : Identity) (now : Instant) : Except ServerError Unit × Server :=
  match s.scheduler.heartbeat id now with
  | .ok scheduler => (.ok (), { s with scheduler := scheduler })
  | .error e => (.error (.ofScheduler e), s)

def nextJob (s : Server) (id : Identity) (now : Instant) :
    Except ServerError (Option Job) × Server :=
  let (job, scheduler, store) := s.scheduler.nextJob Store.storage id now s.store
  (job.mapError .ofScheduler, { s with scheduler := scheduler, store := store })

def submit (s : Server) (id : Identity) (r : JobResult) (now : Instant) :
    Except ServerError SaveOutcome × Server :=
  let (outcome, scheduler, store) :=
    s.scheduler.submit Store.storage id r.evaluation now s.store
  (outcome.mapError .ofScheduler, { s with scheduler := scheduler, store := store })

/-- The evaluations that the book has for some positions; the others are passed over. -/
def lookup (s : Server) (ps : List Position) : Except ServerError (List Evaluation) :=
  if ps.length > maxBatch then .error (.tooMany "positions")
  else
    match s.store.lookup ps with
    | .error e => .error (.store e)
    | .ok cache => .ok (ps.filterMap fun p => (cache.lookup p).toOption)

/-- Saves evaluations and tells how many of them changed the store. -/
def takeEvaluations (s : Server) (es : List Evaluation) : Except ServerError Nat × Server :=
  if es.length > maxBatch then (.error (.tooMany "evaluations"), s)
  else
    let (saved, store) := s.store.saveAll es
    (.ok saved, { s with store := store })

end Server
end OthelloBook
