import OthelloBook.Engine.Basic
import OthelloBook.Worker.Access
import OthelloBook.Worker.Rehearsal
import Mathlib.Tactic

/-!
# The identity of a worker

In a round a worker introduces itself if it has to, asks for a job, searches it and sends the result,
and stops at the first failure. What it asks carries the identity that it was given last. It goes on
under this identity until the book rejects it.
-/
namespace OthelloBook

namespace BookCall

/-- The identity under which a request is made, if it takes one. -/
def sender? : BookCall → Option String
  | .heartbeat id _ => some id
  | .job id _ => some id
  | .submit id _ _ => some id
  | _ => none

def given? : BookCall → Option String
  | .register _ (.ok id) => some id
  | _ => none

def isRegister : BookCall → Bool
  | .register _ _ => true
  | _ => false

def isJob : BookCall → Bool
  | .job _ _ => true
  | _ => false

def isSubmit : BookCall → Bool
  | .submit _ _ _ => true
  | _ => false

def newest? (calls : List BookCall) : Option String := (calls.filterMap given?).getLast?

theorem newest?_append (calls later : List BookCall) :
    newest? (calls ++ later) = (newest? later).or (newest? calls) := by
  rw [newest?, List.filterMap_append, List.getLast?_append]
  rfl

end BookCall

def Workplace.logged {σ τ : Type} (w : Workplace σ τ) (log : List BookCall) :
    Workplace (σ × List BookCall) τ :=
  ⟨w.identity, (w.book, log), w.engine⟩

namespace Worker

open BookCall

variable {σ τ : Type} {k : Worker σ τ} {w : Workplace σ τ} {seconds : Float}
  {calls : List BookCall} {result : Except WorkError Round} {identity : Option String}

section Rounds

def recorded (k : Worker σ τ) : Worker (σ × List BookCall) τ :=
  ⟨k.settings, k.book.recorded, k.engine⟩

/-- How a worker comes by the identity of a round: it has one, or it introduces itself. -/
inductive Identified (k : Worker σ τ) : Option String → List BookCall → String → Prop
  | known (id : String) : Identified k (some id) [] id
  | introduced (id : String) :
      Identified k none [.register k.settings.introduction (.ok id)] id

/-- How the rest of a round can go under an identity: its requests and what comes of it. -/
inductive Errand (k : Worker σ τ) (seconds : Float) (en : τ) (id : String) :
    List BookCall → Except WorkError Round → Prop
  | unanswered (e : AccessError) :
      Errand k seconds en id [.job id (.error e)] (.error (.access e))
  | idle : Errand k seconds en id [.job id (.ok none)] (.ok .idle)
  | unsearched {job : Job} {e : EngineError}
      (hsearch : (k.engine.evaluate job.position job.level en).1 = .error e) :
      Errand k seconds en id [.job id (.ok (some job))] (.error (.engine e))
  | refused {job : Job} {e : Evaluation}
      (hsearch : (k.engine.evaluate job.position job.level en).1 = .ok e) (x : AccessError) :
      Errand k seconds en id [.job id (.ok (some job)), .submit id ⟨e, seconds⟩ (.error x)]
        (.error (.access x))
  | computed {job : Job} {e : Evaluation}
      (hsearch : (k.engine.evaluate job.position job.level en).1 = .ok e) :
      Errand k seconds en id [.job id (.ok (some job)), .submit id ⟨e, seconds⟩ (.ok ())]
        (.ok (.computed job seconds))

/-- How a round can go: its requests, what comes of it, and the identity after it. -/
inductive Course (k : Worker σ τ) (seconds : Float) (w : Workplace σ τ) :
    List BookCall → Except WorkError Round → Option String → Prop
  | turnedAway (h : w.identity = none) (e : AccessError) :
      Course k seconds w [.register k.settings.introduction (.error e)] (.error (.access e)) none
  | served {first rest : List BookCall} {id : String} {result : Except WorkError Round}
      (h : Identified k w.identity first id) (hrest : Errand k seconds w.engine id rest result) :
      Course k seconds w (first ++ rest) result (some id)

/-- A worker with an identity uses it, and any other one is given one or is turned away. -/
theorem identify_cases (k : Worker σ τ) (w : Workplace σ τ) (log : List BookCall) :
    (∃ e st, w.identity = none ∧ k.identify w = (.error (.access e), ⟨none, st, w.engine⟩) ∧
        k.recorded.identify (w.logged log) = (.error (.access e), .logged ⟨none, st, w.engine⟩
          (log ++ [.register k.settings.introduction (.error e)]))) ∨
      ∃ first id st, Identified k w.identity first id ∧
        k.identify w = (.ok id, ⟨some id, st, w.engine⟩) ∧
        k.recorded.identify (w.logged log) =
          (.ok id, .logged ⟨some id, st, w.engine⟩ (log ++ first)) := by
  obtain ⟨_ | id, st, en⟩ := w
  · simp only [identify, recorded, Workplace.logged, BookAccess.recorded, BookCall.note]
    rcases k.book.register k.settings.introduction st with ⟨e | id, st'⟩
    · exact .inl ⟨e, st', trivial, rfl, rfl⟩
    · exact .inr ⟨_, id, st', .introduced id, rfl, rfl⟩
  · refine .inr ⟨[], id, st, .known id, rfl, ?_⟩
    rw [List.append_nil]
    rfl

/-- A round takes one of its courses, with a record or without one. -/
theorem course_round (k : Worker σ τ) (seconds : Float) (w : Workplace σ τ)
    (log : List BookCall) :
    ∃ calls, Course k seconds w calls (k.round seconds w).1 (k.round seconds w).2.identity ∧
      k.recorded.round seconds (w.logged log) =
        ((k.round seconds w).1, (k.round seconds w).2.logged (log ++ calls)) := by
  rcases k.identify_cases w log with ⟨e, st, hnone, hplain, hrecorded⟩ |
    ⟨first, id, st, hfirst, hplain, hrecorded⟩
  · simp only [round, hplain, hrecorded]
    exact ⟨_, .turnedAway hnone e, rfl⟩
  · simp only [round, hplain, hrecorded]
    simp only [recorded, Workplace.logged, BookAccess.recorded, BookCall.note]
    rcases k.book.job id st with ⟨e | _ | job, st₁⟩
    · exact ⟨_, .served hfirst (.unanswered e), by rw [List.append_assoc]⟩
    · exact ⟨_, .served hfirst .idle, by rw [List.append_assoc]⟩
    · simp only [perform]
      rcases hsearch : k.engine.evaluate job.position job.level w.engine with ⟨e | e, en⟩
      · refine ⟨_, .served hfirst (.unsearched (congrArg Prod.fst hsearch)), ?_⟩
        rw [List.append_assoc]
      · simp only [BookCall.note]
        rcases k.book.submit id ⟨e, seconds⟩ st₁ with ⟨x | u, st₂⟩
        · refine ⟨_, .served hfirst (.refused (congrArg Prod.fst hsearch) x), ?_⟩
          simp only [List.append_assoc, List.cons_append, List.nil_append]
        · refine ⟨_, .served hfirst (.computed (congrArg Prod.fst hsearch)), ?_⟩
          simp only [List.append_assoc, List.cons_append, List.nil_append]

structure Report where
  calls : List BookCall
  result : Except WorkError Round

def report (k : Worker σ τ) (seconds : Float) (w : Workplace σ τ) : Report where
  calls := (k.recorded.round seconds (w.logged [])).2.book.2
  result := (k.round seconds w).1

theorem course_report (k : Worker σ τ) (seconds : Float) (w : Workplace σ τ) :
    Course k seconds w (k.report seconds w).calls (k.report seconds w).result
      (k.round seconds w).2.identity := by
  obtain ⟨calls, hcourse, hrecorded⟩ := k.course_round seconds w []
  rw [report, hrecorded]
  exact hcourse

/-- A request that is made under an identity and gives none. -/
def IsUnder (id : String) (c : BookCall) : Prop := c.sender? = some id ∧ c.given? = none

variable {id : String} {first rest : List BookCall} {en : τ}

theorem Errand.isUnder (h : Errand k seconds en id rest result) : ∀ c ∈ rest, IsUnder id c := by
  cases h <;> simp [IsUnder, sender?, given?]

theorem newest?_of_isUnder (h : ∀ c ∈ rest, IsUnder id c) : newest? rest = none := by
  rw [newest?, List.filterMap_eq_nil_iff.2 fun c hc => (h c hc).2]
  rfl

theorem Identified.newest? (h : Identified k identity first id) :
    (newest? first).or identity = some id := by
  cases h <;> rfl

theorem Identified.sender? (h : Identified k identity first id) : ∀ c ∈ first, c.sender? = none := by
  cases h <;> simp [BookCall.sender?]

/-- The identity after a round is the newest one, if it was not there before. -/
theorem Course.identity_eq (h : Course k seconds w calls result identity) :
    identity = (newest? calls).or w.identity := by
  cases h with
  | turnedAway hnone e => exact hnone.symm
  | served hfirst hrest =>
    rw [newest?_append, newest?_of_isUnder hrest.isUnder, Option.none_or, hfirst.newest?]

/-- The requests of a round carry the newest identity. -/
theorem Course.sender (h : Course k seconds w calls result identity) {before after : List BookCall}
    {c : BookCall} (hsplit : calls = before ++ c :: after) {i : String}
    (hi : c.sender? = some i) : (newest? before).or w.identity = some i := by
  have hmem : c ∈ calls := by simp [hsplit]
  cases h with
  | turnedAway hnone e =>
    obtain rfl := List.mem_singleton.1 hmem
    cases hi
  | @served first rest id _ hfirst hrest =>
    have hunder := hrest.isUnder
    have hrest : c ∈ rest := (List.mem_append.1 hmem).resolve_left fun hc => by
      simp [hfirst.sender? c hc] at hi
    obtain rfl : id = i := Option.some.inj ((hunder c hrest).1.symm.trans hi)
    -- What comes before the request is the introduction, and then some of the rest.
    have hbefore : ∃ middle, before = first ++ middle ∧ middle <+: rest := by
      rcases List.append_eq_append_iff.1 hsplit with ⟨middle, hbefore, hmiddle⟩ |
        ⟨_ | ⟨d, more⟩, hfirst', hmore⟩
      · exact ⟨middle, hbefore, _, hmiddle.symm⟩
      · exact ⟨[], by simpa using hfirst'.symm, List.nil_prefix⟩
      · obtain rfl : c = d := (List.cons.inj hmore).1
        simp [hfirst.sender? c (by simp [hfirst'])] at hi
    obtain ⟨middle, rfl, hmiddle⟩ := hbefore
    have hnone := newest?_of_isUnder fun c hc => hunder c (hmiddle.subset hc)
    rw [newest?_append, hnone, Option.none_or, hfirst.newest?]

theorem Identified.countP (h : Identified k identity first id) :
    first.countP isRegister = (if identity = none then 1 else 0) ∧ first.countP isJob = 0 ∧
      first.countP isSubmit = 0 := by
  cases h <;> exact ⟨rfl, rfl, rfl⟩

theorem Errand.countP (h : Errand k seconds en id rest result) :
    rest.countP isRegister = 0 ∧ rest.countP isJob = 1 ∧ rest.countP isSubmit ≤ 1 := by
  cases h <;> simp [List.countP_cons, isRegister, isJob, isSubmit]

/-- In a round a worker introduces itself once if it has no identity, and not if it has one. It asks
for one job at most and sends one result at most. -/
theorem Course.countP (h : Course k seconds w calls result identity) :
    calls.countP isRegister = (if w.identity = none then 1 else 0) ∧ calls.countP isJob ≤ 1 ∧
      calls.countP isSubmit ≤ 1 := by
  cases h with
  | turnedAway hnone e =>
    rw [if_pos hnone]
    exact ⟨rfl, Nat.zero_le 1, Nat.zero_le 1⟩
  | served hfirst hrest =>
    obtain ⟨hregister, hjob, hsubmit⟩ := hfirst.countP
    obtain ⟨hregister', hjob', hsubmit'⟩ := hrest.countP
    simp only [List.countP_append]
    omega

theorem Identified.not_mem (h : Identified k identity first id) :
    (∀ i a, .job i a ∉ first) ∧ ∀ i r a, .submit i r a ∉ first := by
  cases h <;> simp

/-- A result is sent just when there was a job and its search succeeded, under the same identity. -/
theorem Course.submit_iff (h : Course k seconds w calls result identity) (i : String)
    (r : JobResult) : (∃ a, .submit i r a ∈ calls) ↔
      ∃ job e, .job i (.ok (some job)) ∈ calls ∧
        (k.engine.evaluate job.position job.level w.engine).1 = .ok e ∧ r = ⟨e, seconds⟩ := by
  cases h with
  | turnedAway hnone e => simp
  | @served first rest id _ hfirst hrest =>
    obtain ⟨hjob, hsubmit⟩ := hfirst.not_mem
    simp only [List.mem_append, hjob, hsubmit, false_or]
    cases hrest with
    | unanswered e => simp
    | idle => simp
    | unsearched hsearch => simp [hsearch]
    | refused hsearch x => simp [hsearch]
    | computed hsearch => simp [hsearch]

end Rounds

section Runs

def Report.isRejected (t : Report) : Bool :=
  match t.result with
  | .error (.access .unauthorized) => true
  | _ => false

/-- The identity after a turn: none if it was rejected, and else the newest one. -/
theorem identity_turn (k : Worker σ τ) (seconds : Float) (w : Workplace σ τ) :
    (k.turn seconds w).identity =
      if (k.report seconds w).isRejected then none
      else (newest? (k.report seconds w).calls).or w.identity := by
  rw [← (k.course_report seconds w).identity_eq, turn, report, Report.isRejected]
  rcases k.round seconds w with ⟨((_ | _ | _) | e | e) | a, w'⟩ <;> rfl

/-- A worker that has taken turns since it began without an identity, with the reports of its rounds.
Between the turns the book and the engine may change, as others use them too, and the heartbeats of
the worker go on. -/
inductive Worked (k : Worker σ τ) : Workplace σ τ → List Report → Prop
  | start (st : σ) (en : τ) : Worked k ⟨none, st, en⟩ []
  | turn {w : Workplace σ τ} {past : List Report} (h : Worked k w past) (seconds : Float) :
      Worked k (k.turn seconds w) (past ++ [k.report seconds w])
  | meanwhile {w : Workplace σ τ} {past : List Report} (h : Worked k w past) (st : σ) (en : τ) :
      Worked k ⟨w.identity, st, en⟩ past

/-- No identity was given so far, or none since one was rejected. -/
def Anonymous (past : List Report) : Prop :=
  (∀ t ∈ past, newest? t.calls = none) ∨
    ∃ older t newer, past = older ++ t :: newer ∧ t.isRejected = true ∧
      ∀ u ∈ newer, newest? u.calls = none

theorem anonymous_append_singleton {past : List Report} {t : Report} :
    Anonymous (past ++ [t]) ↔
      t.isRejected = true ∨ newest? t.calls = none ∧ Anonymous past := by
  constructor
  · rintro (hnone | ⟨older, u, newer, hsplit, hrejected, hnewer⟩)
    · rw [List.forall_mem_append, List.forall_mem_singleton] at hnone
      exact .inr ⟨hnone.2, .inl hnone.1⟩
    · rcases List.eq_nil_or_concat newer with rfl | ⟨between, v, rfl⟩
      · obtain ⟨-, hsame⟩ := List.append_inj' hsplit rfl
        rw [(List.cons.inj hsame).1]
        exact .inl hrejected
      · rw [List.concat_eq_append] at hsplit hnewer
        rw [← List.cons_append, ← List.append_assoc] at hsplit
        obtain ⟨rfl, hsame⟩ := List.append_inj' hsplit rfl
        rw [List.forall_mem_append, List.forall_mem_singleton] at hnewer
        rw [(List.cons.inj hsame).1]
        exact .inr ⟨hnewer.2, .inr ⟨older, u, between, rfl, hrejected, hnewer.1⟩⟩
  · rintro (hrejected | ⟨hnone, hnone' | ⟨older, u, newer, rfl, hrejected, hnewer⟩⟩)
    · exact .inr ⟨past, t, [], rfl, hrejected, by simp⟩
    · refine .inl ?_
      rw [List.forall_mem_append, List.forall_mem_singleton]
      exact ⟨hnone', hnone⟩
    · refine .inr ⟨older, u, newer ++ [t], by simp, hrejected, ?_⟩
      rw [List.forall_mem_append, List.forall_mem_singleton]
      exact ⟨hnewer, hnone⟩

theorem newest?_of_worked {past : List Report} (h : Worked k w past) (id : String)
    (hid : w.identity = some id) : newest? (past.flatMap Report.calls) = some id := by
  induction h generalizing id with
  | start => cases hid
  | @turn w past h seconds ih =>
    rw [List.flatMap_append, List.flatMap_singleton, newest?_append]
    rw [identity_turn] at hid
    split at hid
    · cases hid
    · cases hnewest : newest? (k.report seconds w).calls with
      | none =>
        rw [hnewest] at hid
        exact ih id hid
      | some i =>
        rw [hnewest] at hid
        exact hid
  | meanwhile h st en ih => exact ih id hid

theorem identity_eq_none_iff {past : List Report} (h : Worked k w past) :
    w.identity = none ↔ Anonymous past := by
  induction h with
  | start => simp [Anonymous]
  | @turn w past h seconds ih =>
    rw [identity_turn, anonymous_append_singleton, ← ih]
    cases (k.report seconds w).isRejected with
    | true => simp
    | false => simp [Option.or_eq_none_iff]
  | meanwhile h st en ih => exact ih

/-- Whatever the book and the engine answer: a worker introduces itself in a round just when it has
no identity, that is, when none was given so far or none since one was rejected. What it asks in the
round carries the identity that was given last. It asks for one job at most. Just when it gets one and
the search succeeds it sends that evaluation, once and under the identity under which it got the
job. After any failure but a rejection it keeps the identity that it has. -/
theorem rounds_keep_to_the_newest_identity {past : List Report} (h : Worked k w past)
    (seconds : Float) :
    let calls := (k.report seconds w).calls
    calls.countP isRegister = (if w.identity = none then 1 else 0) ∧
    (w.identity = none ↔ Anonymous past) ∧
    (∀ before c after id, calls = before ++ c :: after → c.sender? = some id →
      newest? (past.flatMap Report.calls ++ before) = some id) ∧
    calls.countP isJob ≤ 1 ∧
    (∀ id r, (∃ a, .submit id r a ∈ calls) ↔
      ∃ job e, .job id (.ok (some job)) ∈ calls ∧
        (k.engine.evaluate job.position job.level w.engine).1 = .ok e ∧ r = ⟨e, seconds⟩) ∧
    calls.countP isSubmit ≤ 1 ∧
    (k.turn seconds w).identity =
      if (k.report seconds w).isRejected then none else (newest? calls).or w.identity := by
  intro calls
  have hcourse := k.course_report seconds w
  obtain ⟨hregister, hjob, hsubmit⟩ := hcourse.countP
  refine ⟨hregister, identity_eq_none_iff h, ?_, hjob, hcourse.submit_iff, hsubmit,
    k.identity_turn seconds w⟩
  intro before c after id hsplit hid
  have hsender := hcourse.sender hsplit hid
  rw [newest?_append]
  cases hnewest : newest? before with
  | some i => rwa [hnewest] at hsender
  | none =>
    rw [hnewest, Option.none_or] at hsender
    exact newest?_of_worked h id hsender

/-- The first identity is rejected when the worker asks for a job. In the next round it is given a
second one, and gets a job and sends the result under it. -/
theorem rounds_keep_to_the_newest_identity_second_one :
    ∃ (k : Worker RehearsedBook (List (Position × ℕ))) (w : Workplace _ _) (past : List Report),
      Worked k w past ∧ newest? (past.flatMap Report.calls) = some "client-1" ∧
      Anonymous past ∧ (k.report 1.5 w).calls.countP isRegister = 1 ∧
      (∃ a, .submit "client-2" ⟨⟨.start, 20, 20, .p73, 0, [.play 19]⟩, 1.5⟩ a ∈
        (k.report 1.5 w).calls) ∧
      (k.turn 1.5 w).identity = some "client-2" := by
  let k : Worker RehearsedBook (List (Position × ℕ)) :=
    ⟨⟨⟨"w", "b"⟩, 5000, 10000⟩, RehearsedBook.access, Script.engine {}⟩
  let book : RehearsedBook := { jobs := [.error .unauthorized, .ok (some ⟨.start, 20⟩)] }
  have h := (Worked.start (k := k) book []).turn 0.5
  obtain ⟨hregister, hanonymous, -, -, hsubmit, -, hidentity⟩ :=
    rounds_keep_to_the_newest_identity h 1.5
  have hnone : (k.turn 0.5 ⟨none, book, []⟩).identity = none := by decide +kernel
  have hsearch : (k.engine.evaluate .start 20 []).1 = .ok ⟨.start, 20, 20, .p73, 0, [.play 19]⟩ := by
    decide +kernel
  have hjob : .job ("client-" ++ toString 2) (.ok (some ⟨.start, 20⟩)) ∈
      (k.report 1.5 (k.turn 0.5 ⟨none, book, []⟩)).calls := .tail _ (.head _)
  rw [show "client-" ++ toString 2 = "client-2" by decide +kernel] at hjob
  refine ⟨k, _, _, h, by decide +kernel, hanonymous.1 hnone, hregister.trans (if_pos hnone), ?_, ?_⟩
  · exact (hsubmit "client-2" _).2 ⟨⟨.start, 20⟩, _, hjob, hsearch, rfl⟩
  · rw [hidentity]
    decide +kernel

end Runs
end Worker
end OthelloBook
