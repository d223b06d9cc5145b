import OthelloBook.Service.Routes
import OthelloBook.Worker.Access

/-!
# The book as workers reach it

A worker asks a server at hand, without messages in between, or from afar.
-/
namespace OthelloBook

namespace Server

def toAccess (e : ServerError) : AccessError :=
  if e.status = 401 then .unauthorized else .status e.status e.message

def asClient (id : String) (f : Identity → Except ServerError α × Server) (s : Server) :
    Except AccessError α × Server :=
  match Identity.parse? id with
  | none => (.error .unauthorized, s)
  | some id =>
    let (answer, s) := f id
    (answer.mapError toAccess, s)

/-- The server as a worker sees it; `fresh` gives an identity that no client has. -/
def access (fresh : Server → Identity) (now : Instant) : BookAccess Server where
  register who s := (.ok (fresh s).text, s.register (fresh s) who now)
  heartbeat id s := asClient id (fun id => s.heartbeat id now) s
  job id s := asClient id (fun id => s.nextJob id now) s
  submit id r s :=
    asClient id (fun id =>
      let (answer, s) := s.submit id r now
      (answer.map fun _ => (), s)) s
  lookup ps s := ((s.lookup ps).mapError toAccess, s)
  sendEvaluations es s :=
    let (answer, s) := s.takeEvaluations es
    (answer.mapError toAccess, s)

end Server

/-! ## The book from afar

How a worker asks the server: each request becomes a message that a link carries, and the answer
is read as what was asked for. -/

structure Received where
  status : Nat
  body : String
  deriving DecidableEq, Repr

/-- A way to a server; an exchange may fail. -/
structure Link (σ : Type) where
  exchange (r : Request) : σ → Option Received × σ

def Link.down : Link σ := ⟨fun _ st => (none, st)⟩

/-- A server at the end of a link that does not fail, at an instant, with a supply of identities. -/
def Link.toServer (now : Instant) : Link (Server × List Identity) where
  exchange r st :=
    match st with
    | (s, []) => (none, (s, []))
    | (s, fresh :: supply) =>
      let (a, s') := s.handle fresh now r
      let body :=
        match a.content with
        | .empty => ""
        | .json v => v.text
        | .text t => t
      (some ⟨a.status, body⟩, (s', if (s'.scheduler.client? fresh).isSome then supply
        else fresh :: supply))

structure Remote (σ : Type) where
  link : Link σ
  root : String
  token : String

namespace Remote

def isSendable (v : String) : Bool :=
  v.toList.all fun c => (0x20 ≤ c.toNat && c.toNat ≠ 0x7f) || c = '\t'

/-- Sends a request; anything but success is an error. -/
def exchange (b : Remote σ) (r : Request) (st : σ) : Except AccessError String × σ :=
  if r.headers.all fun h => isSendable h.2 then
    match b.link.exchange r st with
    | (none, st) => (.error .link, st)
    | (some a, st) =>
      if a.status = 401 then (.error .unauthorized, st)
      else if a.status / 100 = 2 then (.ok a.body, st)
      else (.error (.status a.status a.body), st)
  else (.error .link, st)

/-- The path of a route under the root, which may end in slashes. -/
def path (b : Remote σ) (route : Route) : String :=
  String.ofList ((b.root.toList.reverse.dropWhile (· = '/')).reverse) ++ route.path

def request (b : Remote σ) (route : Route) (id : Option String) (body : Option Json) : Request where
  method := if body.isSome || !route.isView && route ≠ .job then "POST" else "GET"
  path := b.path route
  headers :=
    [("x-token", b.token)] ++ (id.map fun id => ("client-id", id)).toList ++
      (body.map fun _ => ("content-type", "application/json")).toList
  body := (body.map Json.text).getD ""

/-- An answer read as a message; one that cannot be read is as good as none. -/
def reading (read : Wire.Decoder α) (a : Except AccessError String × σ) :
    Except AccessError α × σ :=
  match a with
  | (.error e, st) => (.error e, st)
  | (.ok text, st) =>
    match Wire.decodeText read text with
    | .ok v => (.ok v, st)
    | .error _ => (.error .link, st)

def succeeding (a : Except AccessError String × σ) : Except AccessError Unit × σ :=
  (a.1.map fun _ => (), a.2)

def readIdentity : Wire.Decoder String := (Wire.Record.single "client_id" Wire.readString).read

def readSaved : Wire.Decoder Nat :=
  (Wire.Record.single "saved" (Wire.readNat (1 <<< 64 - 1))).read

def access (b : Remote σ) : BookAccess σ where
  register who st :=
    reading readIdentity (b.exchange (b.request .register none (some (Wire.ofIntroduction who))) st)
  heartbeat id st := succeeding (b.exchange (b.request .heartbeat (some id) none) st)
  job id st := reading Wire.readJobOffer (b.exchange (b.request .job (some id) none) st)
  submit id r st :=
    succeeding (b.exchange (b.request .result (some id) (some (Wire.ofJobResult r))) st)
  lookup ps st :=
    reading Wire.readEvaluations
      (b.exchange (b.request .lookup none (some (Wire.ofPositions ps))) st)
  sendEvaluations es st :=
    reading readSaved (b.exchange (b.request .evaluations none (some (Wire.ofEvaluations es))) st)

end Remote

end OthelloBook
