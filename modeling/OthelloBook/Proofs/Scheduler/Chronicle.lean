import OthelloBook.Proofs.Scheduler.Consistency

/-!
# The chronicle of a run

A chronicle notes when clients were heard of and when silent ones were removed, the last entry
first. A request that is refused changes nothing and is not noted. The chronicle alone tells who is
registered: those who were heard of and whom no sweep has since found silent for too long.
-/
namespace OthelloBook.Scheduler

inductive Entry where
  | contact (id : Identity) (now : Instant)
  | sweep (now : Instant)
  deriving DecidableEq

section Entries

def lastContact? (id : Identity) : List Entry → Option Instant
  | [] => none
  | .contact i now :: log => if i = id then some now else lastContact? id log
  | .sweep _ :: log => lastContact? id log

def sweeps : List Entry → List Instant
  | [] => []
  | .contact _ _ :: log => sweeps log
  | .sweep now :: log => now :: sweeps log

/-- A sweep found a client silent for too long, and the client was not heard of since. -/
inductive Missed (inactivity : ℤ) (id : Identity) : List Entry → Prop
  | found {log : List Entry} {now last : Instant} (hlast : lastContact? id log = some last)
      (hsilent : inactivity < now - last) : Missed inactivity id (.sweep now :: log)
  | sweep {log : List Entry} {now : Instant} (h : Missed inactivity id log) :
      Missed inactivity id (.sweep now :: log)
  | contact {log : List Entry} {i : Identity} {now : Instant} (hi : i ≠ id)
      (h : Missed inactivity id log) : Missed inactivity id (.contact i now :: log)

/-- No sweep found a client silent for too long. -/
def Attentive (inactivity : ℤ) (id : Identity) (log : List Entry) : Prop :=
  ∀ now older last, .sweep now :: older <:+ log → lastContact? id older = some last →
    now - last ≤ inactivity

def known (inactivity : ℤ) (id : Identity) : List Entry → Option Instant
  | [] => none
  | .contact i now :: log => if i = id then some now else known inactivity id log
  | .sweep now :: log =>
    (known inactivity id log).filter fun last => !decide (inactivity < now - last)

variable {inactivity : ℤ} {id : Identity} {log : List Entry} {last : Instant}

theorem lastContact?_of_known (h : known inactivity id log = some last) :
    lastContact? id log = some last := by
  induction log with
  | nil => cases h
  | cons entry log ih =>
    cases entry with
    | contact i now =>
      rw [known] at h
      rw [lastContact?]
      split at h
      · rwa [if_pos ‹_›]
      · rw [if_neg ‹_›]
        exact ih h
    | sweep now => exact ih (Option.filter_eq_some_iff.1 h).1

theorem known_eq_none_iff :
    known inactivity id log = none ↔ lastContact? id log = none ∨ Missed inactivity id log := by
  induction log with
  | nil => simp [known, lastContact?]
  | cons entry log ih =>
    cases entry with
    | contact i now =>
      rw [known, lastContact?]
      split
      · rename_i hi
        simp only [reduceCtorEq, false_or, false_iff]
        rintro (_ | _ | ⟨hne, -⟩)
        exact hne hi
      · rename_i hi
        rw [ih]
        refine or_congr_right ⟨.contact hi, ?_⟩
        rintro (_ | _ | ⟨-, h⟩)
        exact h
    | sweep now =>
      rw [known, lastContact?]
      constructor
      · intro hnone
        cases hknown : known inactivity id log with
        | none => exact (ih.1 hknown).imp_right .sweep
        | some last =>
          refine .inr (.found (lastContact?_of_known hknown) ?_)
          by_contra hrecent
          rw [hknown, Option.filter_some, if_pos (by simp [hrecent])] at hnone
          cases hnone
      · rintro (hnever | hmissed)
        · rw [ih.2 (.inl hnever)]
          rfl
        · cases hmissed with
          | sweep h => rw [ih.2 (.inr h)]; rfl
          | found hlast hsilent =>
            cases hknown : known inactivity id log with
            | none => rfl
            | some last =>
              cases hlast.symm.trans (lastContact?_of_known hknown)
              rw [Option.filter_some, if_neg (by simp [hsilent])]

theorem Attentive.not_missed (h : Attentive inactivity id log) : ¬Missed inactivity id log := by
  intro hmissed
  induction hmissed with
  | found hlast hsilent => exact (h _ _ _ List.suffix_rfl hlast).not_gt hsilent
  | sweep hmissed ih =>
    exact ih fun now older last hsuffix => h now older last (hsuffix.trans (List.suffix_cons _ _))
  | contact hi hmissed ih =>
    exact ih fun now older last hsuffix => h now older last (hsuffix.trans (List.suffix_cons _ _))

end Entries

section Runs

variable {σ : Type} {w : Surroundings σ} {timing : Timing} {s : Scheduler} {st : σ}
  {log : List Entry}

def noted (s : Scheduler) (id : Identity) (now : Instant) (log : List Entry) : List Entry :=
  if isDue s.lastPrune s.timing.pruneInterval now then .sweep now :: .contact id now :: log
  else .contact id now :: log

/-- The states that a run can lead to, with the chronicle of the run. -/
inductive Chronicled {σ : Type} (w : Surroundings σ) (timing : Timing) :
    Scheduler → σ → List Entry → Prop
  | start {st : σ} (hst : w.initial st) : Chronicled w timing (start timing) st []
  | register {s : Scheduler} {st : σ} {log : List Entry} {id : Identity}
      (h : Chronicled w timing s st log) (hid : s.client? id = none) (introduction : Introduction)
      (now : Instant) :
      Chronicled w timing (s.register id introduction now) st (.contact id now :: log)
  | heartbeat {s s' : Scheduler} {st : σ} {log : List Entry} {id : Identity} {now : Instant}
      (h : Chronicled w timing s st log) (hs : s.heartbeat id now = .ok s') :
      Chronicled w timing s' st (.contact id now :: log)
  | nextJob {s : Scheduler} {st : σ} {log : List Entry} {id : Identity} {c : Client}
      (h : Chronicled w timing s st log) (hc : s.client? id = some c) (now : Instant) :
      Chronicled w timing (s.nextJob w.storage id now st).2.1 (s.nextJob w.storage id now st).2.2
        (s.noted id now log)
  | submit {s : Scheduler} {st : σ} {log : List Entry} {id : Identity} {c : Client}
      (h : Chronicled w timing s st log) (hc : s.client? id = some c) {e : Evaluation}
      (he : w.accepts e) (now : Instant) :
      Chronicled w timing (s.submit w.storage id e now st).2.1
        (s.submit w.storage id e now st).2.2 (.contact id now :: log)
  | meanwhile {s : Scheduler} {st st' : σ} {log : List Entry}
      (h : Chronicled w timing s st log) (hst : w.meanwhile st st') : Chronicled w timing s st' log
  | reorder {s : Scheduler} {st : σ} {log : List Entry} {clients : List Client}
      (h : Chronicled w timing s st log) (hperm : clients.Perm s.clients) :
      Chronicled w timing { s with clients := clients } st log

theorem reachable_of_chronicled (h : Chronicled w timing s st log) : Reachable w timing s st := by
  induction h with
  | start hst => exact .start hst
  | register h hid introduction now ih => exact ih.register hid introduction now
  | heartbeat h hs ih => exact ih.heartbeat hs
  | nextJob h hc now ih => exact ih.nextJob _ now
  | submit h hc he now ih => exact ih.submit _ (fun _ => he) now
  | meanwhile h hst ih => exact ih.meanwhile hst
  | reorder h hperm ih => exact ih.reorder hperm

/-- Every run has a chronicle. -/
theorem exists_chronicled (h : Reachable w timing s st) : ∃ log, Chronicled w timing s st log := by
  induction h with
  | start hst => exact ⟨_, .start hst⟩
  | register h hid introduction now ih => exact ih.imp' _ fun _ h => h.register hid introduction now
  | heartbeat h hs ih => exact ih.imp' _ fun _ h => h.heartbeat hs
  | @nextJob s st h id now ih =>
    obtain ⟨log, hlog⟩ := ih
    cases hc : s.client? id with
    | none => exact ⟨log, by simpa [Scheduler.nextJob, hc] using hlog⟩
    | some c => exact ⟨_, hlog.nextJob hc now⟩
  | @submit s st h id e he now ih =>
    obtain ⟨log, hlog⟩ := ih
    cases hc : s.client? id with
    | none => exact ⟨log, by simpa [Scheduler.submit, hc] using hlog⟩
    | some c => exact ⟨_, hlog.submit hc (he (by simp [hc])) now⟩
  | meanwhile h hst ih => exact ih.imp fun _ h => h.meanwhile hst
  | reorder h hperm ih => exact ih.imp fun _ h => h.reorder hperm

end Runs

section Contacts

variable {s : Scheduler} {id i : Identity} {now : Instant}

def contact? (s : Scheduler) (id : Identity) : Option Instant :=
  (s.client? id).map Client.lastContact

theorem contact?_register (hid : s.client? id = none) (introduction : Introduction)
    (now : Instant) (i : Identity) :
    (s.register id introduction now).contact? i = if id = i then some now else s.contact? i := by
  have happend : (s.register id introduction now).client? i =
      (s.client? i).or (if id = i then some ⟨id, introduction, now, none, 0⟩ else none) := by
    rw [client?, register, List.find?_append, ← client?]
    by_cases hi : id = i <;> simp [hi]
  rw [contact?, happend]
  split
  · subst i
    rw [hid]
    rfl
  · rw [Option.or_none, contact?]

theorem contact?_modifyClient {f : Client → Client} (hf : ∀ c, (f c).id = c.id)
    (hnow : ∀ c, (f c).lastContact = now) (hid : s.client? id ≠ none) (i : Identity) :
    (s.modifyClient id f).contact? i = if id = i then some now else s.contact? i := by
  rw [contact?, client?_modifyClient hf, Option.map_map]
  split
  · subst i
    obtain ⟨c, hc⟩ := Option.ne_none_iff_exists'.1 hid
    rw [hc, Option.map_some, Function.comp_apply, if_pos (id_of_client? hc), hnow]
  · rename_i hi
    refine Option.map_congr fun c hc => ?_
    rw [Function.comp_apply, if_neg (fun h => hi (h.symm.trans (id_of_client? hc)))]

theorem contact?_sweep (hids : (s.clients.map Client.id).Nodup) (now : Instant) (i : Identity) :
    (s.sweep now).contact? i =
      (s.contact? i).filter fun last => !decide (s.timing.inactivity < now - last) := by
  rw [contact?, client?_sweep hids, contact?, Option.filter_map]
  rfl

theorem contact?_touch (hid : s.client? id ≠ none) (now : Instant) (i : Identity) :
    (s.touch id now).contact? i = if id = i then some now else s.contact? i :=
  contact?_modifyClient (f := fun c => { c with lastContact := now }) (fun _ => rfl) (fun _ => rfl)
    hid i

theorem contact?_nextJob {σ : Type} (storage : Storage σ) {c : Client} (hc : s.client? id = some c)
    (now : Instant) (st : σ) (i : Identity) :
    (s.nextJob storage id now st).2.1.contact? i = ((s.touch id now).prune now).contact? i := by
  obtain ⟨f, hf, hclient, -⟩ := exists_nextJob_client storage s hc now st
  rw [contact?, hclient, Option.map_map, contact?]
  refine Option.map_congr fun c _ => ?_
  rw [Function.comp_apply]
  split
  · exact hf c
  · rfl

/-- The scheduler knows of its clients what the chronicle says. -/
theorem contact?_of_chronicled {σ : Type} {w : Surroundings σ} (hw : w.Sound) {timing : Timing}
    {st : σ} {log : List Entry} (h : Chronicled w timing s st log) (i : Identity) :
    s.contact? i = known timing.inactivity i log := by
  induction h with
  | start => rfl
  | register h hid introduction now ih => rw [contact?_register hid, ih, known]
  | @heartbeat s s' st log id now h hs ih =>
    have hid : s.client? id ≠ none := by
      intro hnone
      simp [heartbeat, hnone] at hs
    rw [eq_touch_of_heartbeat hs, contact?_touch hid, ih, known]
  | @nextJob s st log id c h hc now ih =>
    have hreachable := reachable_of_chronicled h
    have hids := ((holds_of_reachable hw hreachable).1.touch id now).ids
    have htouch :
        (s.touch id now).contact? i = known timing.inactivity i (.contact id now :: log) := by
      rw [contact?_touch (by simp [hc]), ih, known]
    rw [contact?_nextJob _ hc, noted, prune_touch]
    split
    · rw [contact?_sweep hids, htouch, known, ← timing_of_reachable hreachable]
      rfl
    · exact htouch
  | @submit s st log id c h hc e he now ih =>
    have hid : s.client? id ≠ none := by simp [hc]
    have hdone := contact?_modifyClient (f := fun c => c.done e now) (fun _ => rfl)
      (fun _ => rfl) hid i
    rw [submit, hc, known, ← ih]
    exact hdone
  | meanwhile h hst ih => exact ih
  | @reorder s st log clients h hperm ih =>
    have hids := (holds_of_reachable hw (reachable_of_chronicled h)).1.ids
    rw [contact?, client?_reorder hids hperm]
    exact ih

/-- The scheduler knows when the last sweep was, and no sweep comes before its time. -/
theorem sweeps_of_chronicled {σ : Type} {w : Surroundings σ} {timing : Timing} {st : σ}
    {log : List Entry} (h : Chronicled w timing s st log) :
    s.lastPrune = (sweeps log).head? ∧
      (sweeps log).IsChain fun later earlier => timing.pruneInterval ≤ later - earlier := by
  induction h with
  | start => exact ⟨rfl, .nil⟩
  | register h hid introduction now ih => exact ih
  | heartbeat h hs ih =>
    rw [eq_touch_of_heartbeat hs]
    exact ih
  | @nextJob s st log id c h hc now ih =>
    obtain ⟨hlast, hchain⟩ := ih
    obtain ⟨-, -, -, hprune⟩ := exists_nextJob_client w.storage s hc now st
    rw [hprune, noted, prune_touch]
    split
    · rename_i hdue
      refine ⟨rfl, List.isChain_cons.2 ⟨fun t ht => ?_, hchain⟩⟩
      rw [sweeps, ← hlast] at ht
      have hsame := timing_of_reachable (reachable_of_chronicled h)
      rw [show s.lastPrune = some t from ht, hsame] at hdue
      simpa [isDue] using hdue
    · exact ⟨hlast, hchain⟩
  | @submit s st log id c h hc e he now ih =>
    rw [submit, hc]
    exact ih
  | meanwhile h hst ih => exact ih
  | reorder h hperm ih => exact ih

end Contacts

end OthelloBook.Scheduler
