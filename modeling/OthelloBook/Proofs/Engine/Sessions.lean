import OthelloBook.Engine.Rehearsal
import Mathlib.Tactic

/-!
# Sessions with an engine

A session runs one process at a time, for one level, and what it says goes to that process. When no
result can be read the process is stopped, and the next search starts another one. A process that a
question cannot be put to is not stopped, though: it stays, and so does the fault.
-/
namespace OthelloBook

inductive HostCall where
  | start (arguments : List String) (process : Option ℕ)
  | send (process : ℕ) (line : String) (written : Bool)
  | discard (process : ℕ)
  | receive (process : ℕ)
  | stop (process : ℕ)
  deriving DecidableEq

variable {σ : Type}

def Host.recorded (host : Host σ) : Host (σ × List HostCall) where
  start program arguments directory st :=
    let (process, st') := host.start program arguments directory st.1
    (process, st', .start arguments process :: st.2)
  send process line st :=
    let (written, st') := host.send process line st.1
    (written, st', .send process line written :: st.2)
  discard process st := (host.discard process st.1, .discard process :: st.2)
  receive process st :=
    let (lines, st') := host.receive process st.1
    (lines, st', .receive process :: st.2)
  stop process st := (host.stop process st.1, .stop process :: st.2)

section Recorded

variable (host : Host σ) (process : ℕ) (st : σ × List HostCall)

theorem Host.start_recorded (program : String) (arguments : List String) (directory : String) :
    host.recorded.start program arguments directory st =
      ((host.start program arguments directory st.1).1,
        (host.start program arguments directory st.1).2,
        .start arguments (host.start program arguments directory st.1).1 :: st.2) := rfl

theorem Host.send_recorded (line : String) : host.recorded.send process line st =
    ((host.send process line st.1).1, (host.send process line st.1).2,
      .send process line (host.send process line st.1).1 :: st.2) := rfl

end Recorded

namespace Host

/-- The states that a host can come to while no process but this one is told anything. -/
inductive Told (host : Host σ) (process : ℕ) : σ → σ → Prop
  | refl (st : σ) : Told host process st st
  | discard {st st' : σ} (h : Told host process (host.discard process st) st') :
      Told host process st st'
  | send {st st' : σ} (line : String) (h : Told host process (host.send process line st).2 st') :
      Told host process st st'

/-- From this state on the process takes no line, as one that has ended. -/
def Deaf (host : Host σ) (process : ℕ) (st : σ) : Prop :=
  ∀ st', host.Told process st st' → ∀ line, (host.send process line st').1 = false

variable {host : Host σ} {process : ℕ}

theorem Deaf.refuses {st : σ} (h : host.Deaf process st) (line : String) :
    (host.send process line st).1 = false :=
  h st (.refl st) line

theorem Deaf.discard {st : σ} (h : host.Deaf process st) :
    host.Deaf process (host.discard process st) :=
  fun st' hst' => h st' (.discard hst')

theorem Deaf.send {st : σ} (h : host.Deaf process st) (line : String) :
    host.Deaf process (host.send process line st).2 :=
  fun st' hst' => h st' (.send line hst')

theorem Told.of_recorded {st st' : σ × List HostCall} (h : host.recorded.Told process st st') :
    host.Told process st.1 st'.1 := by
  induction h with
  | refl st => exact .refl st.1
  | discard _ ih => exact .discard ih
  | send line _ ih => exact .send line ih

theorem Deaf.recorded {st : σ × List HostCall} (h : host.Deaf process st.1) :
    host.recorded.Deaf process st :=
  fun st' hst' => h st'.1 hst'.of_recorded

end Host

namespace HostCall

/-- The process that was started last and has not been stopped, with its arguments. -/
def current? : List HostCall → Option (ℕ × List String)
  | [] => none
  | .start arguments process :: _ => process.map fun n => (n, arguments)
  | .stop _ :: _ => none
  | .send _ _ _ :: record => current? record
  | .discard _ :: record => current? record
  | .receive _ :: record => current? record

/-- A record that goes on with calls that start processes with these arguments, one at a time, and
that tell and ask nothing of any process but one that was started so. -/
inductive Served (arguments : List String) (before : List HostCall) : List HostCall → Prop
  | refl : Served arguments before before
  | start {record : List HostCall} (h : Served arguments before record)
      (hfree : current? record = none) (process : Option ℕ) :
      Served arguments before (.start arguments process :: record)
  | send {record : List HostCall} {process : ℕ} (h : Served arguments before record)
      (hcurrent : current? record = some (process, arguments)) (line : String) (written : Bool) :
      Served arguments before (.send process line written :: record)
  | discard {record : List HostCall} {process : ℕ} (h : Served arguments before record)
      (hcurrent : current? record = some (process, arguments)) :
      Served arguments before (.discard process :: record)
  | receive {record : List HostCall} {process : ℕ} (h : Served arguments before record)
      (hcurrent : current? record = some (process, arguments)) :
      Served arguments before (.receive process :: record)
  | stop {record : List HostCall} {process : ℕ} {others : List String}
      (h : Served arguments before record) (hcurrent : current? record = some (process, others)) :
      Served arguments before (.stop process :: record)

end HostCall

open HostCall

section Answers

theorem OutputLine.read_error {line : String} {e : EngineError}
    (h : OutputLine.read line = .error e) :
    ∃ text fault, e = .output text fault := by
  simp only [OutputLine.read] at h
  split_ifs at h
  cases hrow : readRow (Text.dropBlankEnd line.toList) with
  | error fault =>
    rw [hrow] at h
    exact ⟨_, fault, (Except.error.inj h).symm⟩
  | ok row =>
    rw [hrow] at h
    cases h

theorem ResultTable.feed_error {t : ResultTable} {line : String} {e : EngineError}
    (h : (t.feed line).1 = .error e) : e = .noResult ∨ ∃ text fault, e = .output text fault := by
  rw [feed] at h
  cases hread : OutputLine.read line with
  | error x =>
    rw [hread] at h
    dsimp only at h
    split_ifs at h
    cases h
    exact .inr (OutputLine.read_error hread)
  | ok output =>
    rw [hread] at h
    cases output with
    | ignored => cases h
    | row r => cases h
    | border =>
      dsimp only at h
      split_ifs at h
      cases hlast : t.last with
      | none =>
        rw [hlast] at h
        exact .inl (Except.error.inj h).symm
      | some r =>
        rw [hlast] at h
        cases h

/-- A table that gives no result ends too early, has no row, or has a line that is none. -/
theorem ResultTable.result_error {t : ResultTable} {lines : List String} {e : EngineError}
    (h : t.result lines = .error e) :
    e = .exited ∨ e = .noResult ∨ ∃ text fault, e = .output text fault := by
  induction lines generalizing t with
  | nil => exact .inl (Except.error.inj h).symm
  | cons line lines ih =>
    rw [result] at h
    have hfeed : ∀ x, (t.feed line).1 = .error x →
        x = .noResult ∨ ∃ text fault, x = .output text fault := fun x => ResultTable.feed_error
    generalize t.feed line = fed at h hfeed
    obtain ⟨x | (_ | r), t'⟩ := fed
    · cases h
      exact .inr (hfeed e rfl)
    · exact ih h
    · cases h

theorem Engine.ofRow_error {p : Position} {level : ℕ} {r : SearchRow} {e : EngineError}
    (h : Engine.ofRow p level r = .error e) : ∃ b, e = .book b := by
  rw [Engine.ofRow] at h
  generalize Except.bind _ _ = checked at h
  cases checked with
  | error b => exact ⟨b, (Except.error.inj h).symm⟩
  | ok f => cases h

end Answers

namespace Session

variable {host : Host σ} {command : EngineCommand} {s : Session (σ × List HostCall)}
  {st : σ × List HostCall} {before : List HostCall} {arguments : List String} {process level : ℕ}

section Calls

variable (host)

/-- The process of the session is the one that was started last. -/
def Tracked (command : EngineCommand) (s : Session (σ × List HostCall)) : Prop :=
  current? s.host.2 = s.running.map fun r => (r.process, command.argumentsAt r.level)

theorem served_sendAll (lines : List String) (st : σ × List HostCall)
    (h : Served arguments before st.2)
    (hcurrent : current? st.2 = some (process, arguments)) :
    Served arguments before (sendAll host.recorded process lines st).2.2 ∧
      current? (sendAll host.recorded process lines st).2.2 = some (process, arguments) ∧
      ((sendAll host.recorded process lines st).1 = false → ∃ line record,
        (sendAll host.recorded process lines st).2.2 = .send process line false :: record) := by
  induction lines generalizing st with
  | nil => exact ⟨h, hcurrent, by simp [sendAll]⟩
  | cons line lines ih =>
    have hsent := h.send hcurrent line (host.send process line st.1).1
    rw [sendAll, Host.send_recorded]
    cases hwritten : (host.send process line st.1).1 with
    | true =>
      rw [hwritten] at hsent
      exact ih _ hsent hcurrent
    | false =>
      rw [hwritten] at hsent
      exact ⟨hsent, hcurrent, fun _ => ⟨line, st.2, rfl⟩⟩

theorem served_launch (h : Served (command.argumentsAt level) before st.2)
    (hfree : current? st.2 = none) :
    Served (command.argumentsAt level) before (launch host.recorded command level st).2.2 ∧
      Tracked command ⟨(launch host.recorded command level st).1,
        (launch host.recorded command level st).2⟩ ∧
      ∀ r, (launch host.recorded command level st).1 = some r → r.level = level := by
  have hstarted := h.start hfree
    (host.start command.program (command.argumentsAt level) command.directory st.1).1
  rw [launch, Host.start_recorded]
  generalize host.start command.program (command.argumentsAt level) command.directory st.1 = started
    at hstarted ⊢
  obtain ⟨_ | process, st'⟩ := started
  · exact ⟨hstarted, rfl, fun _ h => by cases h⟩
  · obtain ⟨hserved, hcurrent, -⟩ := served_sendAll host
      ["post", "cores " ++ toString command.cores]
      (st', .start (command.argumentsAt level) (some process) :: st.2) hstarted rfl
    dsimp only
    generalize sendAll host.recorded process ["post", "cores " ++ toString command.cores]
      (st', .start (command.argumentsAt level) (some process) :: st.2) = sent at hserved hcurrent ⊢
    obtain ⟨_ | _, st''⟩ := sent
    · exact ⟨hserved.stop hcurrent, rfl, fun _ h => by cases h⟩
    · exact ⟨hserved, hcurrent, fun r hr => by cases hr; rfl⟩

theorem served_close (h : Served arguments before s.host.2) (hs : s.Tracked command) :
    Served arguments before (s.close host.recorded).host.2 ∧
      (s.close host.recorded).running = none ∧ (s.close host.recorded).Tracked command := by
  cases hrunning : s.running with
  | none =>
    have hclose : s.close host.recorded = s := by rw [close, hrunning]
    rw [hclose]
    exact ⟨h, hrunning, hs⟩
  | some r =>
    have hclose : s.close host.recorded = ⟨none, host.recorded.stop r.process s.host⟩ := by
      rw [close, hrunning]
    rw [Tracked, hrunning] at hs
    rw [hclose]
    exact ⟨h.stop hs, rfl, rfl⟩

theorem served_ensure (h : Served (command.argumentsAt level) before s.host.2)
    (hs : s.Tracked command) :
    Served (command.argumentsAt level) before (s.ensure host.recorded command level).2.host.2 ∧
      (s.ensure host.recorded command level).2.Tracked command ∧
      (s.ensure host.recorded command level).2.running = (s.ensure host.recorded command level).1 ∧
      ∀ r, (s.ensure host.recorded command level).1 = some r → r.level = level := by
  obtain ⟨hclosed, hnone, hfree⟩ := served_close host h hs
  rw [Tracked, hnone] at hfree
  rw [ensure]
  cases hrunning : s.running with
  | none =>
    rw [Tracked, hrunning] at hs
    obtain ⟨hserved, htracked, hlevel⟩ := served_launch host h hs
    exact ⟨hserved, htracked, rfl, hlevel⟩
  | some r =>
    dsimp only
    split
    · rename_i hlevel
      exact ⟨h, hs, hrunning, fun x hx => by cases hx; exact hlevel⟩
    · obtain ⟨hserved, htracked, hlevel⟩ := served_launch host hclosed hfree
      exact ⟨hserved, htracked, rfl, hlevel⟩

end Calls

def Leaves (level : ℕ) (answer : Except EngineError Evaluation) (s : Session (σ × List HostCall)) :
    Prop :=
  match answer with
  | .ok _ | .error (.book _) => ∃ process, s.running = some ⟨process, level⟩
  | .error .io => s.running = none ∨ ∃ process line record,
      s.running = some ⟨process, level⟩ ∧ s.host.2 = .send process line false :: record
  | .error _ => s.running = none

section Searches

theorem leaves_of_result_error {lines : List String} {e : EngineError}
    (h : ResultTable.result {} lines = .error e) (hs : s.running = none) :
    Leaves level (.error e) s := by
  rcases ResultTable.result_error h with rfl | rfl | ⟨text, fault, rfl⟩ <;> exact hs

theorem leaves_of_ofRow {p : Position} {row : SearchRow}
    (hs : s.running = some ⟨process, level⟩) : Leaves level (Engine.ofRow p level row) s := by
  cases hrow : Engine.ofRow p level row with
  | ok e => exact ⟨process, hs⟩
  | error x =>
    obtain ⟨b, rfl⟩ := Engine.ofRow_error hrow
    exact ⟨process, hs⟩

theorem served_search (host : Host σ) (hs : s.Tracked command) (p : Position) (level : ℕ) :
    Served (command.argumentsAt level) s.host.2
        (s.search host.recorded command p level).2.host.2 ∧
      (s.search host.recorded command p level).2.Tracked command ∧
      Leaves level (s.search host.recorded command p level).1
        (s.search host.recorded command p level).2 := by
  obtain ⟨hserved, htracked, hrunning, hlevel⟩ := served_ensure host .refl hs
  rw [search]
  generalize s.ensure host.recorded command level = ensured at hserved htracked hrunning hlevel ⊢
  obtain ⟨_ | r, s'⟩ := ensured
  · exact ⟨hserved, htracked, .inl hrunning⟩
  · obtain rfl := hlevel r rfl
    obtain ⟨running, st⟩ := s'
    obtain rfl : running = some r := hrunning
    have hcurrent : current? st.2 = some (r.process, command.argumentsAt r.level) := htracked
    obtain ⟨hasked, hsame, hunwritten⟩ := served_sendAll host (question p)
      (host.recorded.discard r.process st) (hserved.discard hcurrent) hcurrent
    dsimp only
    generalize sendAll host.recorded r.process (question p)
      (host.recorded.discard r.process st) = sent at hasked hsame hunwritten ⊢
    obtain ⟨_ | _, st'⟩ := sent
    · obtain ⟨line, record, hlast⟩ := hunwritten rfl
      exact ⟨hasked, hsame, .inr ⟨r.process, line, record, rfl, hlast⟩⟩
    · have hread := hasked.receive hsame
      dsimp only
      split
      · rename_i e hresult
        obtain ⟨hclosed, hnone, hfree⟩ := served_close host
          (s := ⟨some r, (host.recorded.receive r.process st').2⟩) hread hsame
        exact ⟨hclosed, hfree, leaves_of_result_error hresult hnone⟩
      · exact ⟨hread, hsame, leaves_of_ofRow rfl⟩

inductive Reached (host : Host σ) (command : EngineCommand) (initial : σ) : Session σ → Prop
  | fresh : Reached host command initial ⟨none, initial⟩
  | search {s : Session σ} (h : Reached host command initial s) (p : Position) (level : ℕ) :
      Reached host command initial (s.search host command p level).2

theorem tracked_of_reached {initial : σ} (h : Reached host.recorded command (initial, []) s) :
    s.Tracked command := by
  induction h with
  | fresh => rfl
  | search h p level ih => exact (served_search host ih p level).2.1

def searchAll (host : Host σ) (command : EngineCommand) (level : ℕ) (ps : List Position)
    (s : Session σ) : Session σ :=
  ps.foldl (fun s p => (s.search host command p level).2) s

theorem sendAll_of_refused {σ : Type} {host : Host σ} {line : String} {lines : List String} {st : σ}
    (h : (host.send process line st).1 = false) :
    sendAll host process (line :: lines) st = (false, (host.send process line st).2) := by
  rw [sendAll]
  generalize host.send process line st = sent at h ⊢
  obtain ⟨written, st'⟩ := sent
  obtain rfl : written = false := h
  rfl

theorem search_of_deaf (command : EngineCommand) {s : Session σ}
    (hrunning : s.running = some ⟨process, level⟩) (hdeaf : host.Deaf process s.host)
    (p : Position) :
    (s.search host command p level).1 = .error .io ∧
      (s.search host command p level).2.running = some ⟨process, level⟩ ∧
      host.Deaf process (s.search host command p level).2.host := by
  have hensure : s.ensure host command level = (some ⟨process, level⟩, s) := by
    rw [ensure, hrunning]
    exact if_pos rfl
  rw [search, hensure]
  dsimp only
  rw [question, sendAll_of_refused (hdeaf.discard.refuses _)]
  exact ⟨rfl, hrunning, hdeaf.discard.send _⟩

/-- A process that takes no lines any more is asked again and again. -/
theorem searchAll_of_deaf (command : EngineCommand) {s : Session σ}
    (hrunning : s.running = some ⟨process, level⟩) (hdeaf : host.Deaf process s.host)
    (ps : List Position) :
    (searchAll host command level ps s).running = some ⟨process, level⟩ ∧
      host.Deaf process (searchAll host command level ps s).host := by
  induction ps generalizing s with
  | nil => exact ⟨hrunning, hdeaf⟩
  | cons p ps ih =>
    obtain ⟨-, hkept, hstill⟩ := search_of_deaf command hrunning hdeaf p
    exact ih hkept hstill

end Searches

/-- A search starts processes for its level only, one at a time, and says what it has to say to the
one that was started last. When no result can be read no process is left, and after a result, be it
valid or not, one for this level is. When the process could not be spoken to there is no process
left either, unless it was a question that could not be put to it: then the process stays, and if it
takes no lines any more, all later searches at this level fail as well. -/
theorem unwritable_process_is_kept {initial : σ} (h : Reached host.recorded command (initial, []) s)
    (p : Position) (level : ℕ) :
    Served (command.argumentsAt level) s.host.2
        (s.search host.recorded command p level).2.host.2 ∧
      Leaves level (s.search host.recorded command p level).1
        (s.search host.recorded command p level).2 ∧
      ∀ process, s.running = some ⟨process, level⟩ → host.Deaf process s.host.1 →
        ∀ ps, (searchAll host.recorded command level ps s).running = some ⟨process, level⟩ ∧
          ((searchAll host.recorded command level ps s).search host.recorded command p level).1 =
            .error .io := by
  obtain ⟨hserved, -, hleaves⟩ := served_search host (tracked_of_reached h) p level
  refine ⟨hserved, hleaves, fun process hrunning hdeaf ps => ?_⟩
  obtain ⟨hkept, hstill⟩ := searchAll_of_deaf command hrunning hdeaf.recorded ps
  exact ⟨hkept, (search_of_deaf command hkept hstill p).1⟩

end Session

section Brief

/-- A host whose processes end after the first answer. Its state is how many processes were started
and whether the last one still runs. -/
def Host.brief (answer : List String) : Host (ℕ × Bool) where
  start _ _ _ st := (some (st.1 + 1), st.1 + 1, true)
  send _ _ st := (st.2, st)
  discard _ st := st
  receive _ st := (answer, st.1, false)
  stop _ st := (st.1, false)

theorem Host.deaf_brief (answer : List String) (process started : ℕ) :
    (Host.brief answer).Deaf process (started, false) := by
  have hsame : ∀ st st', (Host.brief answer).Told process st st' → st' = st := by
    intro st st' h
    induction h with
    | refl st => rfl
    | discard _ ih => exact ih
    | send _ _ ih => exact ih
  intro st' hst' line
  rw [hsame _ _ hst']
  rfl

theorem Session.search_brief {lines : List String} {row : SearchRow}
    (h : ResultTable.result {} lines = .ok row) (command : EngineCommand) (p : Position)
    (level started : ℕ) (alive : Bool) :
    (⟨none, started, alive⟩ : Session (ℕ × Bool)).search (.brief lines) command p level =
      (Engine.ofRow p level row, ⟨some ⟨started + 1, level⟩, started + 1, false⟩) := by
  simp [search, ensure, launch, sendAll, question, Host.brief, h]

def startTable : List String :=
  [String.ofList OutputLine.borderText,
    "20@73% 5                                             d3 c3 c4 e3",
    String.ofList OutputLine.borderText]

theorem result_startTable : ResultTable.result {} startTable =
    .ok ⟨20, 73, 5, [.play 19, .play 18, .play 26, .play 20]⟩ := by
  decide +kernel

end Brief

namespace Session

/-- The process ends after its answer: the second search cannot put its question to it, and neither
can any after that. -/
theorem unwritable_process_is_kept_after_its_end :
    ∃ s, Reached (Host.brief startTable).recorded ⟨"engine", [], none, 1⟩ ((0, false), []) s ∧
      s.running = some ⟨1, 20⟩ ∧
      ∀ ps, (searchAll (Host.brief startTable).recorded ⟨"engine", [], none, 1⟩ 20 ps s).running =
          some ⟨1, 20⟩ ∧
        ((searchAll (Host.brief startTable).recorded ⟨"engine", [], none, 1⟩ 20 ps s).search
          (Host.brief startTable).recorded ⟨"engine", [], none, 1⟩ .start 20).1 = .error .io := by
  have h₁ : Reached (Host.brief startTable).recorded ⟨"engine", [], none, 1⟩ ((0, false), []) _ :=
    Reached.fresh.search .start 20
  have hfirst : ((⟨none, (0, false), []⟩ : Session _).search (Host.brief startTable).recorded
      ⟨"engine", [], none, 1⟩ .start 20).2 = ⟨some ⟨1, 20⟩, (1, false), [.receive 1,
        .send 1 "analyze" true, .send 1 ("setboard " ++ Position.start.setboard) true, .discard 1,
        .send 1 ("cores " ++ toString 1) true, .send 1 "post" true,
        .start ["-level", toString 20] (some 1)]⟩ := by
    simp [search, ensure, launch, sendAll, question, Host.recorded, Host.brief, result_startTable,
      EngineCommand.argumentsAt]
  rw [hfirst] at h₁
  exact ⟨_, h₁, rfl,
    (unwritable_process_is_kept h₁ .start 20).2.2 1 rfl (Host.deaf_brief startTable 1 1)⟩

/-- A process answers the first question and ends. The next search cannot put its question to it and
keeps it, and so the search after that fails as well, where another process would have answered. -/
theorem search_goes_on_with_a_dead_process :
    ∃ (s₁ s₂ s₃ : Session (ℕ × Bool)) (e : Evaluation),
      (⟨none, 0, false⟩ : Session (ℕ × Bool)).search (.brief startTable) ⟨"engine", [], none, 1⟩
        .start 20 = (.ok e, s₁) ∧
      s₁.search (.brief startTable) ⟨"engine", [], none, 1⟩ .start 20 = (.error .io, s₂) ∧
      s₂.running = some ⟨1, 20⟩ ∧
      s₂.search (.brief startTable) ⟨"engine", [], none, 1⟩ .start 20 = (.error .io, s₃) ∧
      ((⟨none, s₂.host⟩ : Session (ℕ × Bool)).search (.brief startTable) ⟨"engine", [], none, 1⟩
        .start 20).1 = .ok e := by
  have hrow : Engine.ofRow .start 20 ⟨20, 73, 5, [.play 19, .play 18, .play 26, .play 20]⟩ =
      .ok ⟨.start, 20, 20, .p73, 5, [.play 19, .play 18, .play 26, .play 20]⟩ := by decide +kernel
  have hfresh := fun started alive =>
    search_brief result_startTable ⟨"engine", [], none, 1⟩ .start 20 started alive
  exact ⟨⟨some ⟨1, 20⟩, 1, false⟩, ⟨some ⟨1, 20⟩, 1, false⟩, ⟨some ⟨1, 20⟩, 1, false⟩, _,
    (hfresh 0 false).trans (by rw [hrow]), rfl, rfl, rfl, by rw [hfresh]; exact hrow⟩

end Session

end OthelloBook
