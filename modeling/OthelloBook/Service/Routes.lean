import OthelloBook.Scheduler.Basic
import OthelloBook.Service.Basic
import OthelloBook.Service.Request

/-!
# Routes

How the server answers requests. The path says what is asked for; then come the secret that it
takes, the method, the identity of the client and the body, each of which may be the reason for a
refusal.
-/
namespace OthelloBook

inductive Route where
  | register | heartbeat | job | result | lookup | evaluations
  | status | counts | priority
  deriving DecidableEq, Repr

namespace Route

def all : List Route :=
  [.register, .heartbeat, .job, .result, .lookup, .evaluations, .status, .counts, .priority]

def path : Route → String
  | .register => "/register"
  | .heartbeat => "/heartbeat"
  | .job => "/job"
  | .result => "/job/result"
  | .lookup => "/positions/lookup"
  | .evaluations => "/evaluations"
  | .status => "/stats"
  | .counts => "/book/stats"
  | .priority => "/book/priority"

def ofPath? (p : String) : Option Route := all.find? fun r => r.path = p

/-- Whether a route only shows how things stand. -/
def isView : Route → Bool
  | .status => true
  | .counts => true
  | .priority => true
  | _ => false

/-- The methods of a route. Whatever can be got can also be asked for without its content. -/
def methods (r : Route) : List String :=
  if r.isView || r = .job then ["GET", "HEAD"] else ["POST"]

end Route

namespace Server

/-- Whether a request has the secret that a route takes, or why not. -/
def authorize (c : Credentials) (route : Route) (r : Request) : Except ServerError Unit :=
  if route.isView then
    if r.credentials? = some (Text.utf8 (c.statsUser ++ ":" ++ c.statsPassword)) then .ok ()
    else .error .invalidStatsCredentials
  else if r.header? "x-token" = some c.token then .ok ()
  else .error .invalidToken

/-- The identity that a request gives; one that is not well formed is not known either. -/
def identify (r : Request) : Except ServerError Identity :=
  let name := (r.header? "client-id").getD ""
  match Identity.parse? name with
  | some id => .ok id
  | none => .error (.unknownClient name)

def receive (r : Request) (read : Wire.Decoder α) : Except ServerError α :=
  match r.message? read with
  | some a => .ok a
  | none => .error .malformedBody

def defaultLimit : Nat := 100

/-- How many jobs a request wants to see, if it says so properly. -/
def limit? (r : Request) : Option Nat :=
  match r.queryValues "limit" with
  | [] => some defaultLimit
  | [v] => (Text.natUpTo? (1 <<< 32 - 1) (v.map fun b => Char.ofNat b.toNat)).map (min · maxBatch)
  | _ => none

abbrev Reply := Except ServerError Answer × Server

def shows (v : Json) : Answer := ⟨200, .json v, none⟩

def done : Answer := ⟨200, .empty, none⟩

/-- Does what a route is for. A client that registers gets the identity `fresh`. -/
def perform (s : Server) (fresh : Identity) (now : Instant) (route : Route) (r : Request) : Reply :=
  match route with
  | .register =>
    match receive r Wire.readIntroduction with
    | .error e => (.error e, s)
    | .ok who => (.ok (shows (.obj [("client_id", .str fresh.text)])), s.register fresh who now)
  | .heartbeat =>
    match identify r with
    | .error e => (.error e, s)
    | .ok id =>
      let (answer, s) := s.heartbeat id now
      (answer.map fun _ => done, s)
  | .job =>
    match identify r with
    | .error e => (.error e, s)
    | .ok id =>
      let (answer, s) := s.nextJob id now
      (answer.map fun job => shows (Wire.ofJobOffer job), s)
  | .result =>
    match identify r with
    | .error e => (.error e, s)
    | .ok id =>
      match receive r Wire.readJobResult with
      | .error e => (.error e, s)
      | .ok result =>
        let (answer, s) := s.submit id result now
        (answer.map fun _ => done, s)
  | .lookup =>
    match receive r Wire.readPositions with
    | .error e => (.error e, s)
    | .ok ps => ((s.lookup ps).map fun es => shows (Wire.ofEvaluations es), s)
  | .evaluations =>
    match receive r Wire.readEvaluations with
    | .error e => (.error e, s)
    | .ok es =>
      let (answer, s) := s.takeEvaluations es
      (answer.map fun n => shows (.obj [("saved", .nat n)]), s)
  | .status => (.ok (shows s.scheduler.status), s)
  | .counts => (.ok (shows (.arr (s.store.counts.map Wire.ofBookCount))), s)
  | .priority =>
    match limit? r with
    | none => (.ok ⟨400, .text "invalid query", none⟩, s)
    | some n =>
      match s.store.byPriority n with
      | .ok jobs => (.ok (shows (.arr (jobs.map Wire.ofJob))), s)
      | .error e => (.error (.store e), s)

/-- What those are asked for who do not prove that they may see how things stand. -/
def challenge : String := "Basic realm=\"book\""

def complain (e : ServerError) : Answer where
  status := e.status
  content := .json (.obj [("error", .str e.message)])
  challenge := if e = .invalidStatsCredentials then some challenge else none

def withoutContent (r : Request) (a : Answer) : Answer :=
  if r.method = "HEAD" then { a with content := .empty } else a

def handle (s : Server) (fresh : Identity) (now : Instant) (r : Request) : Answer × Server :=
  match Route.ofPath? r.path with
  | none => (⟨404, .empty, none⟩, s)
  | some route =>
    match authorize s.credentials route r with
    | .error e => (withoutContent r (complain e), s)
    | .ok () =>
      if r.method ∈ route.methods then
        match s.perform fresh now route r with
        | (.ok answer, s) => (withoutContent r answer, s)
        | (.error e, s) => (withoutContent r (complain e), s)
      else (⟨405, .empty, none⟩, s)

end Server
end OthelloBook
