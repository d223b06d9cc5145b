import OthelloBook.Proofs.Store.Worklist
import OthelloBook.Scheduler.Assignment

/-!
# Runs of the scheduler

A run begins without clients and goes on request by request, in any order and at any times. Between
requests others may write to the book, and the registry, which has no order of its own, may turn up
in another one.
-/
namespace OthelloBook.Scheduler

/-- What a scheduler works with: how it reaches the book, how the book is at first and how it may
change between requests, and the results that clients send. -/
structure Surroundings (σ : Type) where
  storage : Storage σ
  book : σ → Store
  initial : σ → Prop
  meanwhile : σ → σ → Prop
  accepts : Evaluation → Prop

inductive Reachable {σ : Type} (w : Surroundings σ) (timing : Timing) : Scheduler → σ → Prop
  | start {st : σ} (hst : w.initial st) : Reachable w timing (start timing) st
  | register {s : Scheduler} {st : σ} {id : Identity} (h : Reachable w timing s st)
      (hid : s.client? id = none) (introduction : Introduction) (now : Instant) :
      Reachable w timing (s.register id introduction now) st
  | heartbeat {s s' : Scheduler} {st : σ} {id : Identity} {now : Instant}
      (h : Reachable w timing s st) (hs : s.heartbeat id now = .ok s') : Reachable w timing s' st
  | nextJob {s : Scheduler} {st : σ} (h : Reachable w timing s st) (id : Identity)
      (now : Instant) : Reachable w timing (s.nextJob w.storage id now st).2.1
        (s.nextJob w.storage id now st).2.2
  | submit {s : Scheduler} {st : σ} (h : Reachable w timing s st) (id : Identity)
      {e : Evaluation} (he : s.client? id ≠ none → w.accepts e) (now : Instant) :
      Reachable w timing (s.submit w.storage id e now st).2.1
        (s.submit w.storage id e now st).2.2
  | meanwhile {s : Scheduler} {st st' : σ} (h : Reachable w timing s st)
      (hst : w.meanwhile st st') : Reachable w timing s st'
  | reorder {s : Scheduler} {st : σ} {clients : List Client} (h : Reachable w timing s st)
      (hperm : clients.Perm s.clients) : Reachable w timing { s with clients := clients } st

/-- Surroundings in which the book stays sound and what is read of it is true. -/
structure Surroundings.Sound {σ : Type} (w : Surroundings σ) : Prop where
  initial {st : σ} : w.initial st → (w.book st).Sound
  meanwhile {st st' : σ} : w.meanwhile st st' → (w.book st).Sound → (w.book st').Sound
  save {st : σ} (e : Evaluation) : (w.book st).Sound → (w.book (w.storage.save e st).2).Sound
  worklist {st : σ} (discs level : ℕ) : (w.book st).Sound →
    (w.book (w.storage.worklist discs level st).2).Sound
  answer {st : σ} {discs level : ℕ} {ps : List Position} :
    (w.storage.worklist discs level st).1 = .ok ps →
      (w.book (w.storage.worklist discs level st).2).worklist discs level = .ok ps

/-- A store that was filled by saves and that nobody else uses, and clients that send nothing but
finished searches. -/
def undisturbed : Surroundings Store where
  storage := Store.storage
  book := id
  initial st := ∃ es, st = Store.filled es
  meanwhile _ _ := False
  accepts := Store.Finishes

section Disturbances

/-- What comes before the answer to a request: others save evaluations, and it may fail. -/
structure Disturbance where
  saves : List Evaluation
  failure : Option StoreError
  deriving DecidableEq

def disturb {α : Type} (request : Store → Except StoreError α × Store) :
    Store × List Disturbance → Except StoreError α × Store × List Disturbance
  | (s, []) =>
    let (answer, s) := request s
    (answer, s, [])
  | (s, d :: ds) =>
    let s := (s.saveAll d.saves).2
    match d.failure with
    | some e => (.error e, s, ds)
    | none =>
      let (answer, s) := request s
      (answer, s, ds)

def disturbedStorage : Storage (Store × List Disturbance) where
  worklist discs level := disturb (Store.storage.worklist discs level)
  save e := disturb (Store.storage.save e)

/-- A store that was filled by saves and that others write to at any time, which may fail, and
clients that send anything. -/
def contended : Surroundings (Store × List Disturbance) where
  storage := disturbedStorage
  book := Prod.fst
  initial st := ∃ es, st.1 = Store.filled es
  meanwhile st st' := ∃ es, st'.1 = (st.1.saveAll es).2
  accepts _ := True

variable {α : Type} {request : Store → Except StoreError α × Store}

theorem sound_disturb {st : Store × List Disturbance}
    (hrequest : ∀ s : Store, s.Sound → (request s).2.Sound) (hst : st.1.Sound) :
    (disturb request st).2.1.Sound := by
  obtain ⟨s, _ | ⟨d, ds⟩⟩ := st
  · exact hrequest s hst
  · have hsaved := Store.sound_saveAll hst d.saves
    rw [disturb]
    cases d.failure with
    | none => exact hrequest _ hsaved
    | some e => exact hsaved

/-- An answer is that of the store as it was when it was asked. -/
theorem disturb_ok {st : Store × List Disturbance} {a : α} (h : (disturb request st).1 = .ok a) :
    ∃ s, request s = (.ok a, (disturb request st).2.1) := by
  obtain ⟨s, _ | ⟨d, ds⟩⟩ := st
  · exact ⟨s, Prod.ext h rfl⟩
  · rw [disturb] at h ⊢
    cases hd : d.failure with
    | none => exact ⟨_, Prod.ext (by simpa [hd] using h) (by simp)⟩
    | some e => simp [hd] at h

end Disturbances

theorem sound_undisturbed : undisturbed.Sound where
  initial := by
    rintro st ⟨es, rfl⟩
    exact Store.sound_filled es
  meanwhile := fun h => h.elim
  save e hs := Store.sound_save hs e
  worklist _ _ hs := hs
  answer h := h

theorem sound_contended : contended.Sound where
  initial := by
    rintro ⟨s, ds⟩ ⟨es, rfl⟩
    exact Store.sound_filled es
  meanwhile := by
    rintro ⟨s, ds⟩ ⟨s', ds'⟩ ⟨es, rfl⟩ hs
    exact Store.sound_saveAll hs es
  save e := sound_disturb fun _ hs => Store.sound_save hs e
  worklist _ _ := sound_disturb fun _ hs => hs
  answer := by
    intro st discs level ps hps
    obtain ⟨s, hs⟩ := disturb_ok hps
    have hstore : s = (contended.storage.worklist discs level st).2.1 := congrArg Prod.snd hs
    change (contended.storage.worklist discs level st).2.1.worklist discs level = .ok ps
    rw [← hstore]
    exact congrArg Prod.fst hs

end OthelloBook.Scheduler
