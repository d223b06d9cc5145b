import OthelloBook.Engine.Basic
import OthelloBook.Wire.Message

/-!
# Access to the book

What those who work for the book may ask of it. Each request may fail.
-/
namespace OthelloBook

inductive AccessError where
  | unauthorized
  | status (code : Nat) (body : String)
  | link
  deriving DecidableEq, Repr

def AccessError.message : AccessError → String
  | .unauthorized => "client identity rejected by the server"
  | .status code body => "server returned " ++ toString code ++ ": " ++ body
  | .link => "request failed"

inductive WorkError where
  | access (e : AccessError)
  | engine (e : EngineError)
  | book (e : BookError)
  deriving DecidableEq

/-- The requests of workers, on a state of whoever answers them. -/
structure BookAccess (σ : Type) where
  /-- Introduces a worker, who gets an identity. -/
  register (who : Introduction) : σ → Except AccessError String × σ
  heartbeat (id : String) : σ → Except AccessError Unit × σ
  /-- The next job, if there is work. -/
  job (id : String) : σ → Except AccessError (Option Job) × σ
  submit (id : String) (r : JobResult) : σ → Except AccessError Unit × σ
  /-- What the book has for these positions. -/
  lookup (ps : List Position) : σ → Except AccessError (List Evaluation) × σ
  /-- Sends evaluations; tells how many were stored. -/
  sendEvaluations (es : List Evaluation) : σ → Except AccessError Nat × σ

def BookAccess.unreachable : BookAccess σ where
  register _ st := (.error .link, st)
  heartbeat _ st := (.error .link, st)
  job _ st := (.error .link, st)
  submit _ _ st := (.error .link, st)
  lookup _ st := (.error .link, st)
  sendEvaluations _ st := (.error .link, st)

/-! ## Books with a record

A book that notes what it is asked and how it answers, in the order of the requests. The answers are
those of the book itself. -/

inductive BookCall where
  | register (who : Introduction) (answer : Except AccessError String)
  | heartbeat (id : String) (answer : Except AccessError Unit)
  | job (id : String) (answer : Except AccessError (Option Job))
  | submit (id : String) (result : JobResult) (answer : Except AccessError Unit)
  | lookup (ps : List Position) (answer : Except AccessError (List Evaluation))
  | evaluations (es : List Evaluation) (answer : Except AccessError Nat)

/-- The evaluations that are sent to the book without a job. -/
def BookCall.sent : BookCall → List Evaluation
  | evaluations es _ => es
  | _ => []

def BookCall.note {σ α : Type} (call : Except AccessError α → BookCall)
    (request : σ → Except AccessError α × σ) (st : σ × List BookCall) :
    Except AccessError α × σ × List BookCall :=
  ((request st.1).1, (request st.1).2, st.2 ++ [call (request st.1).1])

def BookAccess.recorded {σ : Type} (book : BookAccess σ) : BookAccess (σ × List BookCall) where
  register who := BookCall.note (.register who) (book.register who)
  heartbeat id := BookCall.note (.heartbeat id) (book.heartbeat id)
  job id := BookCall.note (.job id) (book.job id)
  submit id r := BookCall.note (.submit id r) (book.submit id r)
  lookup ps := BookCall.note (.lookup ps) (book.lookup ps)
  sendEvaluations es := BookCall.note (.evaluations es) (book.sendEvaluations es)

end OthelloBook
