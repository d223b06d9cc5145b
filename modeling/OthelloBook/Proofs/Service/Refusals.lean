import OthelloBook.Proofs.Scheduler.Requests
import OthelloBook.Proofs.Store.Saves
import OthelloBook.Service.Routes

/-!
# Refused requests

A request can be refused for its secret, its client or its body. The secret is looked at before
anything else, the client before the scheduler is changed, and the body before it is used, so that a
refusal leaves the server as it was. Only a request for a job could go wrong halfway, as the sweep
that comes with it removes clients. The caller has just been heard of, however, and stays.
-/
namespace OthelloBook

/-- The statuses of a bad request, of one by an unknown asker and of one by someone who may not
ask. -/
def Answer.IsRefusal (a : Answer) : Prop := a.status = 400 ∨ a.status = 401 ∨ a.status = 403

instance (a : Answer) : Decidable a.IsRefusal := inferInstanceAs (Decidable (_ ∨ _ ∨ _))

namespace Server

/-- The states that a server can be in: requests are answered one after the other, at any times,
with identities for new clients that nobody has. Between them the registry, which has no order of
its own, may turn up in another one, and others may do to the store whatever they want. -/
inductive Reachable (credentials : Credentials) (timing : Timing) : Server → Prop
  | start (store : Store) : Reachable credentials timing (start credentials timing store)
  | handle {s : Server} (h : Reachable credentials timing s) (fresh : Identity)
      (hfresh : s.scheduler.client? fresh = none) (now : Instant) (r : Request) :
      Reachable credentials timing (s.handle fresh now r).2
  | reorder {s : Server} {clients : List Client} (h : Reachable credentials timing s)
      (hperm : clients.Perm s.scheduler.clients) :
      Reachable credentials timing { s with scheduler.clients := clients }
  | meanwhile {s : Server} (h : Reachable credentials timing s) (store : Store) :
      Reachable credentials timing { s with store := store }

def LacksSecret (c : Credentials) (r : Request) : Prop :=
  ∃ route, Route.ofPath? r.path = some route ∧
    if route.isView then r.credentials? ≠ some (Text.utf8 (c.statsUser ++ ":" ++ c.statsPassword))
    else r.header? "x-token" ≠ some c.token

variable {s : Server} {fresh : Identity} {now : Instant} {route : Route} {r : Request}
  {credentials : Credentials} {timing : Timing}

section Outcomes

/-- What can come of a request that may be made: nothing is changed, or one of the parts of the
server does what it is for. Only the search for a job can fail after that. -/
inductive Outcome (fresh : Identity) (now : Instant) (s : Server) (r : Request) : Reply → Prop
  | unchanged (reply : Except ServerError Answer) : Outcome fresh now s r (reply, s)
  | registered (who : Introduction) {a : Answer} (ha : a.status = 200) :
      Outcome fresh now s r (.ok a, s.register fresh who now)
  | heard (id : Identity) {a : Answer} (ha : a.status = 200) :
      Outcome fresh now s r (.ok a, { s with scheduler := s.scheduler.touch id now })
  | asked {id : Identity} {c : Client} (hc : s.scheduler.client? id = some c)
      {f : Option Job → Answer} (hf : ∀ job, (f job).status = 200) :
      Outcome fresh now s r ((s.nextJob id now).1.map f, (s.nextJob id now).2)
  | delivered (id : Identity) {result : JobResult}
      (hresult : r.message? Wire.readJobResult = some result) {a : Answer} (ha : a.status = 200) :
      Outcome fresh now s r (.ok a, ⟨s.credentials,
        s.scheduler.modifyClient id fun c => c.done result.evaluation now,
        (s.store.save result.evaluation).2⟩)
  | saved {es : List Evaluation} (hes : r.message? Wire.readEvaluations = some es) {a : Answer}
      (ha : a.status = 200) : Outcome fresh now s r (.ok a, { s with store := (s.store.saveAll es).2 })

theorem answer_nextJob (id : Identity) : (s.nextJob id now).1 =
    (s.scheduler.nextJob Store.storage id now s.store).1.mapError .ofScheduler := rfl

theorem message?_of_receive {α : Type} {read : Wire.Decoder α} {a : α}
    (h : receive r read = .ok a) : r.message? read = some a := by
  rw [receive] at h
  split at h
  · cases h
    assumption
  · cases h

theorem outcome_heartbeat (id : Identity) :
    Outcome fresh now s r ((s.heartbeat id now).1.map fun _ => done, (s.heartbeat id now).2) := by
  rw [heartbeat]
  cases h : s.scheduler.heartbeat id now with
  | error e => exact .unchanged _
  | ok scheduler =>
    obtain rfl := Scheduler.eq_touch_of_heartbeat h
    exact .heard id rfl

theorem outcome_nextJob (id : Identity) : Outcome fresh now s r
    ((s.nextJob id now).1.map fun job => shows (Wire.ofJobOffer job), (s.nextJob id now).2) := by
  cases hc : s.scheduler.client? id with
  | none =>
    simp only [nextJob, Scheduler.nextJob_of_unknown Store.storage s.scheduler hc]
    exact .unchanged _
  | some c => exact .asked hc fun _ => rfl

theorem outcome_submit (id : Identity) {result : JobResult}
    (hresult : r.message? Wire.readJobResult = some result) : Outcome fresh now s r
    ((s.submit id result now).1.map fun _ => done, (s.submit id result now).2) := by
  rw [submit, Scheduler.submit]
  cases s.scheduler.client? id with
  | none => exact .unchanged _
  | some c => exact .delivered id hresult rfl

theorem outcome_takeEvaluations {es : List Evaluation}
    (hes : r.message? Wire.readEvaluations = some es) : Outcome fresh now s r
    ((s.takeEvaluations es).1.map fun n => shows (.obj [("saved", .nat n)]),
      (s.takeEvaluations es).2) := by
  rw [takeEvaluations]
  split
  · exact .unchanged _
  · exact .saved hes rfl

theorem outcome_perform (s : Server) (fresh : Identity) (now : Instant) (route : Route)
    (r : Request) : Outcome fresh now s r (s.perform fresh now route r) := by
  cases route with
  | register =>
    rw [perform]
    cases receive r Wire.readIntroduction with
    | error e => exact .unchanged _
    | ok who => exact .registered who rfl
  | heartbeat =>
    rw [perform]
    cases identify r with
    | error e => exact .unchanged _
    | ok id => exact outcome_heartbeat id
  | job =>
    rw [perform]
    cases identify r with
    | error e => exact .unchanged _
    | ok id => exact outcome_nextJob id
  | result =>
    rw [perform]
    cases identify r with
    | error e => exact .unchanged _
    | ok id =>
      cases hresult : receive r Wire.readJobResult with
      | error e => exact .unchanged _
      | ok result => exact outcome_submit id (message?_of_receive hresult)
  | lookup =>
    rw [perform]
    cases receive r Wire.readPositions with
    | error e => exact .unchanged _
    | ok ps => exact .unchanged _
  | evaluations =>
    rw [perform]
    cases hes : receive r Wire.readEvaluations with
    | error e => exact .unchanged _
    | ok es => exact outcome_takeEvaluations (message?_of_receive hes)
  | status => exact .unchanged _
  | counts => exact .unchanged _
  | priority =>
    rw [perform]
    cases limit? r with
    | none => exact .unchanged _
    | some n =>
      dsimp only
      cases s.store.byPriority n with
      | ok jobs => exact .unchanged _
      | error e => exact .unchanged _

/-- A server whose clients have different identities, and that gives them time. -/
structure Regular (s : Server) : Prop where
  ids : (s.scheduler.clients.map Client.id).Nodup
  patient : 0 ≤ s.scheduler.timing.inactivity

def answerOf : Except ServerError Answer → Answer
  | .ok a => a
  | .error e => complain e

theorem not_isRefusal_complain_store (x : StoreError) : ¬(complain (.store x)).IsRefusal := by
  simp [Answer.IsRefusal, complain, ServerError.status]

/-- A refusal of a request that may be made has changed nothing. -/
theorem Outcome.eq_of_isRefusal {reply : Reply} (h : Outcome fresh now s r reply) (hs : s.Regular)
    (hrefused : (answerOf reply.1).IsRefusal) : reply.2 = s := by
  have hnot : ∀ {a : Answer}, a.status = 200 → ¬a.IsRefusal := fun ha h => by
    simp [Answer.IsRefusal, ha] at h
  cases h with
  | unchanged => rfl
  | registered who ha => exact absurd hrefused (hnot ha)
  | heard id ha => exact absurd hrefused (hnot ha)
  | delivered id hresult ha => exact absurd hrefused (hnot ha)
  | saved hes ha => exact absurd hrefused (hnot ha)
  | @asked id c hc f hf =>
    -- A registered caller is refused nothing: what fails for it is the storage.
    simp only [answer_nextJob] at hrefused
    cases hanswer : (s.scheduler.nextJob Store.storage id now s.store).1 with
    | ok job =>
      rw [hanswer] at hrefused
      exact absurd hrefused (hnot (hf job))
    | error e =>
      obtain ⟨x, rfl⟩ := Scheduler.exists_store_of_nextJob_error Store.storage s.scheduler hs.ids
        hs.patient hc hanswer
      rw [hanswer] at hrefused
      exact absurd hrefused (not_isRefusal_complain_store x)

end Outcomes

section Answers

theorem status_withoutContent (r : Request) (a : Answer) :
    (withoutContent r a).status = a.status := by
  rw [withoutContent]
  split <;> rfl

/-- A request that is turned away at the door changes nothing, and any other one is performed. -/
theorem handle_cases (s : Server) (fresh : Identity) (now : Instant) (r : Request) :
    (s.handle fresh now r).2 = s ∨ ∃ route, s.handle fresh now r =
      (withoutContent r (answerOf (s.perform fresh now route r).1),
        (s.perform fresh now route r).2) := by
  rw [handle]
  cases Route.ofPath? r.path with
  | none => exact .inl rfl
  | some route =>
    dsimp only
    cases authorize s.credentials route r with
    | error e => exact .inl rfl
    | ok _ =>
      dsimp only
      split
      · refine .inr ⟨route, ?_⟩
        rcases s.perform fresh now route r with ⟨e | a, s'⟩ <;> rfl
      · exact .inl rfl

/-- Who lacks the secret is told so, whatever the server is like. -/
theorem handle_of_lacksSecret (h : LacksSecret s.credentials r) (fresh : Identity) (now : Instant) :
    ∃ route, Route.ofPath? r.path = some route ∧ s.handle fresh now r =
      (withoutContent r
        (complain (if route.isView then .invalidStatsCredentials else .invalidToken)), s) := by
  obtain ⟨route, hroute, hlacks⟩ := h
  refine ⟨route, hroute, ?_⟩
  rw [handle, hroute]
  dsimp only
  cases hview : route.isView with
  | false =>
    rw [hview] at hlacks
    simp only [authorize, hview, Bool.false_eq_true, if_false, if_neg hlacks]
  | true =>
    rw [hview] at hlacks
    simp only [authorize, hview, if_true, if_neg hlacks]

end Answers

section Runs

theorem Outcome.regular {reply : Reply} (h : Outcome fresh now s r reply) (hs : s.Regular)
    (hfresh : s.scheduler.client? fresh = none) : reply.2.Regular := by
  cases h with
  | unchanged => exact hs
  | registered who ha => exact ⟨Scheduler.nodup_ids_register hs.ids hfresh who now, hs.patient⟩
  | heard id ha =>
    refine ⟨?_, hs.patient⟩
    rw [Scheduler.ids_touch]
    exact hs.ids
  | @asked id =>
    refine ⟨hs.ids.sublist (Scheduler.ids_nextJob Store.storage s.scheduler id now s.store), ?_⟩
    exact (Scheduler.timing_nextJob Store.storage s.scheduler id now s.store) ▸ hs.patient
  | @delivered id result hresult a ha =>
    refine ⟨?_, hs.patient⟩
    rw [Scheduler.ids_modifyClient (f := fun c => c.done result.evaluation now) fun _ => rfl]
    exact hs.ids
  | saved hes ha => exact ⟨hs.ids, hs.patient⟩

theorem Outcome.credentials_eq {reply : Reply} (h : Outcome fresh now s r reply) :
    reply.2.credentials = s.credentials := by
  cases h <;> rfl

theorem regular_of_reachable (htiming : 0 ≤ timing.inactivity)
    (h : Reachable credentials timing s) : s.Regular ∧ s.credentials = credentials := by
  induction h with
  | start store => exact ⟨⟨List.nodup_nil, htiming⟩, rfl⟩
  | @handle s h fresh hfresh now r ih =>
    obtain ⟨hs, hsame⟩ := ih
    rcases s.handle_cases fresh now r with hkept | ⟨route, hperformed⟩
    · rw [hkept]
      exact ⟨hs, hsame⟩
    · rw [hperformed]
      have houtcome := s.outcome_perform fresh now route r
      exact ⟨houtcome.regular hs hfresh, houtcome.credentials_eq.trans hsame⟩
  | reorder h hperm ih =>
    exact ⟨⟨(hperm.map Client.id).nodup_iff.2 ih.1.ids, ih.1.patient⟩, ih.2⟩
  | meanwhile h store ih => exact ⟨⟨ih.1.ids, ih.1.patient⟩, ih.2⟩

/-- In every state that a server can be in, a refused request leaves everything as it was. A request
without the secret that its route takes is refused, with an answer that is the same in all states of
all servers with the same credentials. -/
theorem refused_requests_have_no_effect (htiming : 0 ≤ timing.inactivity)
    (h : Reachable credentials timing s) :
    (∀ fresh now r, (s.handle fresh now r).1.IsRefusal → (s.handle fresh now r).2 = s) ∧
    ∀ fresh now r, LacksSecret credentials r →
      (s.handle fresh now r).1.IsRefusal ∧
      ∀ (s' : Server) (fresh' : Identity) (now' : Instant), s'.credentials = credentials →
        (s'.handle fresh' now' r).1 = (s.handle fresh now r).1 := by
  obtain ⟨hs, rfl⟩ := regular_of_reachable htiming h
  constructor
  · intro fresh now r hrefused
    rcases s.handle_cases fresh now r with hkept | ⟨route, hperformed⟩
    · exact hkept
    · rw [hperformed] at hrefused ⊢
      rw [Answer.IsRefusal, status_withoutContent] at hrefused
      exact (s.outcome_perform fresh now route r).eq_of_isRefusal hs hrefused
  · intro fresh now r hlacks
    obtain ⟨route, hroute, hanswer⟩ := handle_of_lacksSecret hlacks fresh now
    rw [hanswer]
    refine ⟨?_, fun s' fresh' now' hsame => ?_⟩
    · rw [Answer.IsRefusal, status_withoutContent]
      cases route.isView <;> decide
    · rw [← hsame] at hlacks
      obtain ⟨route', hroute', hanswer'⟩ := handle_of_lacksSecret hlacks fresh' now'
      obtain rfl : route' = route := Option.some.inj (hroute'.symm.trans hroute)
      rw [hanswer']

/-- A client that no server knows asks for a job when a sweep is due that would remove the only
registered client, and is refused. Nothing is swept: the client that is known holds its job. Someone
without the token learns nothing but that it is missing. -/
theorem refused_requests_have_no_effect_before_a_sweep :
    ∃ (s : Server) (stranger thief : Request), Reachable ⟨"secret", "admin", "pw"⟩ {} s ∧
      s.scheduler.held = [.start] ∧
      (s.scheduler.prune 1000000).clients = [] ∧
      (s.handle ⟨8⟩ 1000000 stranger).1.status = 401 ∧ (s.handle ⟨8⟩ 1000000 stranger).2 = s ∧
      LacksSecret ⟨"secret", "admin", "pw"⟩ thief ∧
      (s.handle ⟨8⟩ 1000000 thief).1 =
        ((start ⟨"secret", "admin", "pw"⟩ {} .empty).handle ⟨7⟩ 0 thief).1 := by
  let credentials : Credentials := ⟨"secret", "admin", "pw"⟩
  let store := Store.filled [⟨.start, 16, 16, .p73, 0, []⟩]
  let token := ("x-token", "secret")
  let introduction : Request := ⟨"POST", "/register", none,
    [token, ("content-type", "application/json")],
    "\x7b\"hostname\":\"h\",\"build_id\":\"b\"\x7d"⟩
  let ask (id : Identity) : Request := ⟨"GET", "/job", none, [token, ("client-id", id.text)], ""⟩
  let thief : Request := ⟨"GET", "/job", none, [("client-id", (Identity.mk 7).text)], ""⟩
  have h₀ : Reachable credentials {} (start credentials {} store) := .start store
  have h₁ := h₀.handle ⟨7⟩ (by decide) 0 introduction
  have h₂ := h₁.handle ⟨8⟩ (by decide +kernel) 1 (ask ⟨7⟩)
  obtain ⟨hkept, hsame⟩ := refused_requests_have_no_effect (by decide) h₂
  have hlacks : LacksSecret credentials thief := ⟨.job, by decide +kernel, by decide +kernel⟩
  refine ⟨_, ask ⟨9⟩, thief, h₂, by decide +kernel, by decide +kernel, by decide +kernel,
    hkept _ _ _ (by decide +kernel), hlacks, ?_⟩
  exact ((hsame _ _ _ hlacks).2 _ _ _ rfl).symm

end Runs

end Server
end OthelloBook
