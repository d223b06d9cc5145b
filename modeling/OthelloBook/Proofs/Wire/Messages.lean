import OthelloBook.Proofs.Service.Refusals
import OthelloBook.Proofs.Wire.Codecs
import OthelloBook.Service.Access

/-!
# Messages arrive as they were sent

What a worker or the server writes is read by the other side as the same value, and neither side
reads a position or an evaluation that is not one, whatever text it gets. The time that a search took
is the only number in a message that is no integer; it arrives as its own text is read.
-/
namespace OthelloBook

/-! ## What enters the store

A request changes the store in no other way than by saves of evaluations that were read from its
body, where they were checked. Whatever is asked of a server, its store is therefore the one that it
started with after saves of valid evaluations. -/

/-- One store comes from another by saves of evaluations that the checks pass. -/
def Store.Fed (st st' : Store) : Prop :=
  ∃ es : List Evaluation, (∀ e ∈ es, Wire.ValidEvaluation e) ∧ st' = (st.saveAll es).2

theorem Store.Fed.refl (st : Store) : st.Fed st := ⟨[], by simp, rfl⟩

theorem Store.Fed.trans {st st₁ st₂ : Store} (h₁ : st.Fed st₁) (h₂ : st₁.Fed st₂) : st.Fed st₂ := by
  obtain ⟨es, hes, rfl⟩ := h₁
  obtain ⟨fs, hfs, rfl⟩ := h₂
  refine ⟨es ++ fs, fun e he => (List.mem_append.1 he).elim (hes e) (hfs e), ?_⟩
  rw [saveAll_snd, saveAll_snd, saveAll_snd, List.foldl_append]

theorem Request.decodeText_of_message? {α : Type} {r : Request} {read : Wire.Decoder α} {a : α}
    (h : r.message? read = some a) : Wire.decodeText read r.body = .ok a := by
  rw [message?] at h
  split at h
  · cases hread : Wire.decodeText read r.body with
    | error e =>
      rw [hread] at h
      cases h
    | ok b =>
      rw [hread] at h
      exact congrArg Except.ok (Option.some.inj h)
  · cases h

namespace Server

theorem fed_nextJob (s : Server) (id : Identity) (now : Instant) :
    s.store.Fed (s.nextJob id now).2.store :=
  Scheduler.nextJob_keeps (P := s.store.Fed) (fun _ _ _ h => h) id now (.refl s.store)

/-- Whatever comes of a request, what is saved was read from its body. -/
theorem Outcome.fed {s : Server} {fresh : Identity} {now : Instant} {r : Request} {reply : Reply}
    (h : Outcome fresh now s r reply) : s.store.Fed reply.2.store := by
  cases h with
  | unchanged => exact .refl s.store
  | registered who ha => exact .refl s.store
  | heard id ha => exact .refl s.store
  | @asked id => exact s.fed_nextJob id now
  | @delivered id result hresult =>
    obtain ⟨d, hd⟩ := Wire.decodeText_eq_ok (Request.decodeText_of_message? hresult)
    exact ⟨[result.evaluation], by simpa using Wire.validEvaluation_of_readJobResult hd, rfl⟩
  | @saved es hes =>
    exact ⟨es, Wire.codec_readEvaluations.good_of_decodeText (Request.decodeText_of_message? hes),
      rfl⟩

theorem fed_handle (s : Server) (fresh : Identity) (now : Instant) (r : Request) :
    s.store.Fed (s.handle fresh now r).2.store := by
  rcases s.handle_cases fresh now r with hkept | ⟨route, hperformed⟩
  · rw [hkept]
    exact .refl s.store
  · rw [hperformed]
    exact (s.outcome_perform fresh now route r).fed

def afterAll (s : Server) (rs : List (Identity × Instant × Request)) : Server :=
  rs.foldl (fun s (fresh, now, r) => (s.handle fresh now r).2) s

theorem fed_afterAll (s : Server) (rs : List (Identity × Instant × Request)) :
    s.store.Fed (s.afterAll rs).store := by
  induction rs generalizing s with
  | nil => exact .refl s.store
  | cons q rs ih => exact (s.fed_handle q.1 q.2.1 q.2.2).trans (ih _)

end Server

/-! ## Requests and answers -/

namespace Remote

variable {σ α : Type} {read : Wire.Decoder α} {a : α}

/-- The body of a request is read as the value that was put into it is. -/
theorem message?_request (b : Remote σ) (route : Route) (id : Option String) (v : Json)
    (read : Wire.Decoder α) :
    (b.request route id (some v)).message? read = (Wire.decodeText read v.text).toOption := by
  have htoken : lowerAscii "x-token" = "x-token" := by decide
  have hid : lowerAscii "client-id" = "client-id" := by decide
  have htype : lowerAscii "content-type" = "content-type" := by decide
  have hfind : (b.request route id (some v)).headers.find?
      (fun h => lowerAscii h.1 = "content-type") = some ("content-type", "application/json") := by
    cases id <;> simp [request, htoken, hid, htype]
  have hheader : (b.request route id (some v)).header? "content-type" =
      some "application/json" := by
    rw [Request.header?, hfind]
    exact if_pos (by decide)
  have hjson : MediaType.isJson "application/json" = true := by decide +kernel
  rw [Request.message?, hheader, Option.any_some, hjson, if_pos rfl]
  rfl

theorem decodeText_of_reading {answer : Except AccessError String × σ}
    (h : (reading read answer).1 = .ok a) : ∃ text, Wire.decodeText read text = .ok a := by
  rcases answer with ⟨e | text, st⟩
  · cases h
  · rw [reading] at h
    cases htext : Wire.decodeText read text with
    | error e =>
      rw [htext] at h
      cases h
    | ok a' =>
      rw [htext] at h
      cases h
      exact ⟨text, htext⟩

end Remote

namespace Wire

variable {α : Type} {read : Decoder α} {write : α → Json} {good : α → Prop}

/-- A kind of message: what may be sent is read from its text as it was, also from the body of a
request, and whatever is read has passed the checks. -/
structure Faithful (read : Decoder α) (write : α → Json) (sent received : α → Prop) : Prop where
  text {a : α} (h : sent a) : decodeText read (write a).text = .ok a
  request {a : α} (h : sent a) {σ : Type} (b : Remote σ) (route : Route) (id : Option String) :
    (b.request route id (some (write a))).message? read = some a
  fromText {s : String} {a : α} (h : decodeText read s = .ok a) : received a
  fromRequest {r : Request} {a : α} (h : r.message? read = some a) : received a

/-- A kind of message is faithful if it is so about texts. -/
theorem Faithful.of_text {sent received : α → Prop}
    (htext : ∀ a, sent a → decodeText read (write a).text = .ok a)
    (hfrom : ∀ s a, decodeText read s = .ok a → received a) :
    Faithful read write sent received where
  text h := htext _ h
  request {a} h σ b route id := by rw [Remote.message?_request, htext a h]; rfl
  fromText h := hfrom _ _ h
  fromRequest h := hfrom _ _ (Request.decodeText_of_message? h)

theorem Codec.faithful (h : Codec read write good) : Faithful read write good good :=
  .of_text (fun _ => h.decodeText_text) fun _ _ => h.good_of_decodeText

def ReadsBack (x : Float) : Prop := decodeText readFloat (Json.real x).text = .ok x

instance (x : Float) : Decidable (ReadsBack x) := inferInstanceAs (Decidable (_ = _))

theorem faithful_ofJobResult : Faithful readJobResult ofJobResult
    (fun r => ValidEvaluation r.evaluation ∧ ReadsBack r.seconds)
    fun r => ValidEvaluation r.evaluation := by
  refine .of_text (fun r hr => ?_) fun s r hread => ?_
  · rw [decodeText_ofJobResult hr.1, show decodeText readFloat _ = .ok r.seconds from hr.2]
    rfl
  · obtain ⟨d, hd⟩ := decodeText_eq_ok hread
    exact validEvaluation_of_readJobResult hd

/-- Each kind of message between workers and the server is read as it was written, and only what
passes the checks is read: masks with a common square and evaluations with a fault are turned down
also where they are properly written. The time in a result arrives as its own text is read. No
evaluation that the program makes is turned down, no worker is told of a faulty one over any link,
and after any requests the store of a server has changed by nothing but saves of checked ones. -/
theorem messages_arrive_as_sent_and_checked :
    (Faithful readPosition ofPosition Apart Apart ∧
      Faithful readMove ofMove (fun _ => True) (fun _ => True) ∧
      Faithful readEvaluation ofEvaluation ValidEvaluation ValidEvaluation ∧
      Faithful readJob ofJob ValidJob ValidJob ∧
      Faithful readJobOffer ofJobOffer (fun o => ∀ j ∈ o, ValidJob j)
        (fun o => ∀ j ∈ o, ValidJob j) ∧
      Faithful readJobResult ofJobResult
        (fun r => ValidEvaluation r.evaluation ∧ ReadsBack r.seconds)
        (fun r => ValidEvaluation r.evaluation) ∧
      Faithful readPositions ofPositions (fun ps => ∀ p ∈ ps, Apart p)
        (fun ps => ∀ p ∈ ps, Apart p) ∧
      Faithful readEvaluations ofEvaluations (fun es => ∀ e ∈ es, ValidEvaluation e)
        (fun es => ∀ e ∈ es, ValidEvaluation e)) ∧
    (∀ own opposing : Mask,
      (decodeText readPosition (Json.str (String.ofList
        (Position.maskText own ++ Position.maskText opposing))).text).isOk = true ↔
        own &&& opposing = 0) ∧
    (∀ e, InBytes e → decodeText readEvaluation (ofEvaluation e).text = refuse e.validate) ∧
    (∀ r : JobResult, ValidEvaluation r.evaluation →
      decodeText readJobResult (ofJobResult r).text =
        (decodeText readFloat (Json.real r.seconds).text).map fun x => ⟨r.evaluation, x⟩) ∧
    (∀ e, Evaluation.Obtained e → decodeText readEvaluation (ofEvaluation e).text = .ok e) ∧
    (∀ (σ : Type) (b : Remote σ) (st : σ),
      (∀ id o, (b.access.job id st).1 = .ok o → ∀ j ∈ o, ValidJob j) ∧
      ∀ ps es, (b.access.lookup ps st).1 = .ok es → ∀ e ∈ es, ValidEvaluation e) ∧
    ∀ (s : Server) (rs : List (Identity × Instant × Request)),
      s.store.Fed (s.afterAll rs).store := by
  refine ⟨⟨codec_readPosition.faithful, codec_readMove.faithful, codec_readEvaluation.faithful,
    codec_readJob.faithful, codec_readJobOffer.faithful, faithful_ofJobResult,
    codec_readPositions.faithful, codec_readEvaluations.faithful⟩, isOk_decodeText_maskTexts,
    fun e he => he.decodeText_ofEvaluation, fun r hr => decodeText_ofJobResult hr, fun e he => ?_,
    fun σ b st => ⟨fun id o h => ?_, fun ps es h => ?_⟩, fun s rs => s.fed_afterAll rs⟩
  · exact codec_readEvaluation.decodeText_text (validEvaluation_of_valid he.valid)
  · obtain ⟨text, htext⟩ := Remote.decodeText_of_reading h
    exact codec_readJobOffer.good_of_decodeText htext
  · obtain ⟨text, htext⟩ := Remote.decodeText_of_reading h
    exact codec_readEvaluations.good_of_decodeText htext

/-- A worker reports the search of a position where the mover has to pass, turned by a symmetry, and
sends what it found for the position at the start. The server reads both as they are, and keeps
the latter. It would not have read that with an odd level. -/
theorem messages_arrive_as_sent_and_checked_with_a_pass :
    ∃ (r : JobResult) (e : Evaluation) (b : Remote Unit) (id : String) (s : Server),
      r.evaluation.bestMoves = [.pass, .play 56] ∧
      (b.request .result (some id) (some (ofJobResult r))).message? readJobResult = some r ∧
      (b.request .evaluations none (some (ofEvaluations [e]))).message? readEvaluations = some [e] ∧
      decodeText readEvaluation (ofEvaluation { e with level := 17 }).text =
        .error (.refused (.evaluation (.level 17))) ∧
      s.store.rows = [] ∧
      s.store.Fed (s.afterAll
        [(⟨7⟩, 0, b.request .evaluations none (some (ofEvaluations [e])))]).store ∧
      (s.afterAll [(⟨7⟩, 0, b.request .evaluations none (some (ofEvaluations [e])))]).store.rows =
        [.ofEvaluation e.canonicalize] := by
  let blocked : Position := ⟨0x02, 0xfc, by decide⟩
  let found : Evaluation := ⟨blocked.pass, 20, 20, .p73, 3, [.play 0]⟩
  let r : JobResult := ⟨found.beforePass.rotate ⟨true, false, true⟩, 1.5⟩
  let e : Evaluation := ⟨.start, 16, 16, .p73, 0, []⟩
  let b : Remote Unit := ⟨.down, "", "secret"⟩
  let s : Server := .start ⟨"secret", "admin", "pw"⟩ {} .empty
  obtain ⟨⟨-, -, -, -, -, hresult, -, hevaluations⟩, -, hchecks, -, -, -, hfed⟩ :=
    messages_arrive_as_sent_and_checked
  have hr : ValidEvaluation r.evaluation ∧ ReadsBack r.seconds :=
    ⟨by decide +kernel, by decide +kernel⟩
  have he : ∀ f ∈ [e], ValidEvaluation f := by decide +kernel
  have hodd : decodeText readEvaluation (ofEvaluation { e with level := 17 }).text =
      .error (.refused (.evaluation (.level 17))) :=
    (hchecks { e with level := 17 } ⟨by decide, by decide, by decide⟩).trans (by decide +kernel)
  exact ⟨r, e, b, "a", s, by decide +kernel, hresult.request hr b .result (some "a"),
    hevaluations.request he b .evaluations none, hodd, rfl, hfed s _, by decide +kernel⟩

end Wire

end OthelloBook
