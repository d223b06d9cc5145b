import OthelloBook.Proofs.Store.Puts

/-!
# Saves that race

A save takes two steps, and those of others may come between them. The step that finishes a save
does what the whole of it does at that moment, so the store is as if the saves had come one after
the other, in the order in which they finished. Hence no row is doubled or gets worse, and the row
of a position is the best of those that were offered for it.
-/
namespace OthelloBook

namespace Row

theorem not_grade_better_lt_left (old new : Row) : ¬(old.better new).grade < old.grade := by
  by_cases h : old.grade < new.grade
  · rw [better_of_lt h]
    exact asymm h
  · rw [better_of_not_lt h]
    exact irrefl _

theorem not_grade_better_lt_right (old new : Row) : ¬(old.better new).grade < new.grade := by
  by_cases h : old.grade < new.grade
  · rw [better_of_lt h]
    exact irrefl _
  · rwa [better_of_not_lt h]

theorem discCount_better (old new : Row) : (old.better new).discCount = old.discCount := by
  by_cases h : old.grade < new.grade
  · rw [better_of_lt h]
  · rw [better_of_not_lt h]

/-- The number of discs is that of the position, as long as the row is one of an evaluation. -/
theorem discCount_eq_of_position_eq {a b : Evaluation}
    (h : (ofEvaluation a).position = (ofEvaluation b).position) :
    (ofEvaluation a).discCount = (ofEvaluation b).discCount := by
  have hposition : a.position = b.position := Position.bytes_inj.1 h
  simp only [ofEvaluation, hposition]

/-- What is left of rows that are put for one position. -/
def best? (rs : List Row) : Option Row := rs.foldl (fun o r => o.merge better (some r)) none

/-- A row of the greatest grade among several, with the number of discs of the first. -/
structure BestOf (rs : List Row) (r : Row) : Prop where
  source : ∃ o ∈ rs, r = { o with discCount := r.discCount }
  greatest : ∀ o ∈ rs, ¬r.grade < o.grade
  discCount : rs.head?.map Row.discCount = some r.discCount

theorem best?_append_singleton (rs : List Row) (r : Row) :
    best? (rs ++ [r]) = (best? rs).merge better (some r) := by
  rw [best?, List.foldl_append, ← best?, List.foldl_cons, List.foldl_nil]

theorem bestOf_singleton (r : Row) : BestOf [r] r where
  source := ⟨r, by simp, rfl⟩
  greatest o ho := by
    rw [List.mem_singleton.1 ho]
    exact irrefl _
  discCount := rfl

theorem BestOf.append {rs : List Row} {r : Row} (h : BestOf rs r) (new : Row) :
    BestOf (rs ++ [new]) (r.better new) where
  source := by
    by_cases hlt : r.grade < new.grade
    · rw [better_of_lt hlt]
      exact ⟨new, by simp, rfl⟩
    · rw [better_of_not_lt hlt]
      obtain ⟨o, ho, hr⟩ := h.source
      exact ⟨o, List.mem_append_left _ ho, hr⟩
  greatest o ho := by
    rcases List.mem_append.1 ho with ho | ho
    · exact IsOrderConnected.neg_trans (r.not_grade_better_lt_left new) (h.greatest o ho)
    · rw [List.mem_singleton.1 ho]
      exact r.not_grade_better_lt_right new
  discCount := by
    rw [List.head?_append, Option.map_or, h.discCount, Option.some_or, discCount_better]

theorem best?_eq_none_iff {rs : List Row} : best? rs = none ↔ rs = [] := by
  induction rs using List.reverseRecOn with
  | nil => simp [best?]
  | append_singleton rs r ih =>
    rw [best?_append_singleton]
    cases best? rs <;> simp

theorem bestOf_of_best? {rs : List Row} {r : Row} (h : best? rs = some r) : BestOf rs r := by
  induction rs using List.reverseRecOn generalizing r with
  | nil => cases h
  | append_singleton rs new ih =>
    rw [best?_append_singleton] at h
    cases hbest : best? rs with
    | none =>
      rw [hbest, Option.merge_none_left, Option.some.injEq] at h
      rw [best?_eq_none_iff.1 hbest, ← h]
      exact bestOf_singleton new
    | some o =>
      rw [hbest, Option.merge_some_some, Option.some.injEq] at h
      rw [← h]
      exact (ih hbest).append new

end Row

namespace Store

variable {s s' s'' : Store} {e : Evaluation}

/-- No row of one store is missing in another, or of a lower grade there. -/
def NoBetter (s s' : Store) : Prop :=
  ∀ k r, s.find? k = some r → ∃ r', s'.find? k = some r' ∧ ¬r'.grade < r.grade

theorem NoBetter.refl (s : Store) : s.NoBetter s := fun _ r h => ⟨r, h, irrefl _⟩

theorem NoBetter.trans (h : s.NoBetter s') (h' : s'.NoBetter s'') : s.NoBetter s'' := by
  intro k r hr
  obtain ⟨r', hr', hle⟩ := h k r hr
  obtain ⟨r'', hr'', hle'⟩ := h' k r' hr'
  exact ⟨r'', hr'', IsOrderConnected.neg_trans hle' hle⟩

theorem noBetter_put (hs : s.Unique) (r : Row) : s.NoBetter (s.put r).2 := by
  intro k q hq
  rw [find?_put hs, hq]
  by_cases hk : r.position = k
  · rw [if_pos hk]
    exact ⟨q.better r, rfl, q.not_grade_better_lt_left r⟩
  · rw [if_neg hk]
    exact ⟨q, rfl, irrefl _⟩

section Save

theorem noBetter_save (hs : s.Unique) (e : Evaluation) : s.NoBetter (s.save e).2 := by
  by_cases he : e.isSavable = true
  · rw [save_of_savable he]
    exact noBetter_put hs _
  · rw [save_of_not_savable he]
    exact .refl s

/-- A save adds its position to the store just if it reports that it has inserted its row. -/
theorem map_position_save (hs : s.Unique) (e : Evaluation) :
    (s.save e).2.rows.map Row.position =
      s.rows.map Row.position ++ if (s.save e).1 = .inserted then [e.row.position] else [] := by
  by_cases he : e.isSavable = true
  · rw [save_of_savable he]
    cases hq : s.find? e.row.position with
    | none => simp [put_of_none hq]
    | some q =>
      have hmem : e.row.position ∈ s.rows.map Row.position :=
        List.mem_map.2 ⟨q, mem_of_find? hq, position_of_find? hq⟩
      have hsame := map_position_put.resolve_right fun h => h.1 hmem
      rw [hsame]
      by_cases hlt : q.grade < e.row.grade
      · simp [put_of_lt hq hlt]
      · simp [put_of_not_lt hs hq hlt]
  · simp [save_of_not_savable he]

/-- The first of the two steps: it finishes the save unless the position has a row. -/
def firstStep (s : Store) (e : Evaluation) : Option SaveOutcome × Store :=
  if e.isSavable then
    match s.insertIfAbsent e.row with
    | some s => (some .inserted, s)
    | none => (none, s)
  else (some .notSavable, s)

def secondStep (s : Store) (e : Evaluation) : SaveOutcome × Store :=
  match s.upgrade e.row with
  | some s => (.upgraded, s)
  | none => (.kept, s)

theorem firstStep_cases (s : Store) (e : Evaluation) :
    s.firstStep e = (some (s.save e).1, (s.save e).2) ∨
      s.firstStep e = (none, s) ∧ e.isSavable = true ∧ s.find? e.row.position ≠ none := by
  rw [firstStep]
  by_cases he : e.isSavable = true
  · rw [if_pos he, save_of_savable he]
    cases hq : s.find? e.row.position with
    | none =>
      rw [insertIfAbsent_of_none hq, put_of_none hq]
      exact .inl rfl
    | some q =>
      rw [insertIfAbsent_of_some hq]
      exact .inr ⟨rfl, he, by simp⟩
  · rw [if_neg he, save_of_not_savable he]
    exact .inl rfl

/-- A second step is the whole save, whatever has happened since the first. -/
theorem secondStep_eq_save (he : e.isSavable = true) (h : s.find? e.row.position ≠ none) :
    s.secondStep e = s.save e := by
  obtain ⟨q, hq⟩ := Option.ne_none_iff_exists'.1 h
  rw [save_of_savable he, put, insertIfAbsent_of_some hq]
  rfl

end Save

section Serial

variable {ι : Type} {e : ι → Evaluation} {s₀ : Store} {log : List (ι × SaveOutcome)}

inductive Serial (e : ι → Evaluation) (s₀ : Store) : List (ι × SaveOutcome) → Store → Prop
  | nil : Serial e s₀ [] s₀
  | save {log : List (ι × SaveOutcome)} {s : Store} (before : Serial e s₀ log s) (i : ι) :
      Serial e s₀ (log ++ [(i, (s.save (e i)).1)]) (s.save (e i)).2

def savedRows (e : ι → Evaluation) (log : List (ι × SaveOutcome)) (k : List UInt8) : List Row :=
  (((log.map fun report => e report.1).filter Evaluation.isSavable).map Evaluation.row).filter
    fun r => r.position = k

/-- The rows that there were for a position: the one that it had at first, and those of the saves of
a log. -/
def offers (e : ι → Evaluation) (s₀ : Store) (log : List (ι × SaveOutcome)) (k : List UInt8) :
    List Row :=
  (s₀.find? k).toList ++ savedRows e log k

def insertions (e : ι → Evaluation) (log : List (ι × SaveOutcome)) : List (List UInt8) :=
  (log.filter fun report => report.2 = .inserted).map fun report => (e report.1).row.position

namespace Serial

theorem unique (h : Serial e s₀ log s) (hs : s₀.Unique) : s.Unique := by
  induction h with
  | nil => exact hs
  | save before i ih => exact unique_save ih _

theorem map_position (h : Serial e s₀ log s) (hs : s₀.Unique) :
    s.rows.map Row.position = s₀.rows.map Row.position ++ insertions e log := by
  induction h with
  | nil => simp [insertions]
  | @save log s before i ih =>
    rw [map_position_save (before.unique hs), ih, List.append_assoc, insertions, insertions,
      List.filter_append, List.map_append]
    by_cases hnew : (s.save (e i)).1 = .inserted <;> simp [hnew]

theorem find? (h : Serial e s₀ log s) (hs : s₀.Unique) (k : List UInt8) :
    s.find? k = Row.best? (offers e s₀ log k) := by
  induction h with
  | nil => cases h : s₀.find? k <;> simp [offers, savedRows, h, Row.best?]
  | @save log s before i ih =>
    rw [offers, savedRows, List.map_append, List.filter_append, List.map_cons, List.map_nil]
    by_cases he : (e i).isSavable = true
    · rw [save_of_savable he, find?_put (before.unique hs), ih, List.filter_cons_of_pos he,
        List.filter_nil, List.map_append, List.filter_append, ← savedRows, ← List.append_assoc,
        ← offers, List.map_cons, List.map_nil]
      by_cases hk : (e i).row.position = k
      · rw [if_pos hk, List.filter_cons_of_pos (by simpa using hk), List.filter_nil,
          Row.best?_append_singleton]
      · rw [if_neg hk, List.filter_cons_of_neg (by simpa using hk), List.filter_nil, List.append_nil]
    · rw [save_of_not_savable he, List.filter_cons_of_neg he, List.filter_nil, List.append_nil, ih,
        offers, savedRows]

end Serial

theorem mem_savedRows {k : List UInt8} {r : Row} (h : r ∈ savedRows e log k) :
    r.position = k ∧ ∃ a, r = .ofEvaluation a := by
  obtain ⟨hr, hk⟩ := List.mem_filter.1 h
  obtain ⟨a, -, rfl⟩ := List.mem_map.1 hr
  exact ⟨by simpa using hk, a.canonicalize, rfl⟩

/-- All saves for a position have its number of discs. -/
theorem discCount_savedRows {k : List UInt8} {q r : Row} (hq : q ∈ savedRows e log k)
    (hr : r ∈ savedRows e log k) : q.discCount = r.discCount := by
  obtain ⟨hqk, a, rfl⟩ := mem_savedRows hq
  obtain ⟨hrk, b, rfl⟩ := mem_savedRows hr
  exact Row.discCount_eq_of_position_eq (hqk.trans hrk.symm)

/-- The row that is left of the offers is one of the best, but for a number of discs that was wrong
from the first. -/
theorem eq_offer {k : List UInt8} {r : Row} (h : Row.BestOf (offers e s₀ log k) r) :
    ∃ o ∈ offers e s₀ log k, (∀ q ∈ offers e s₀ log k, ¬o.grade < q.grade) ∧
      (r = o ∨ ∃ old, s₀.find? k = some old ∧ old.discCount ≠ o.discCount ∧
        r = { o with discCount := old.discCount }) := by
  obtain ⟨o, ho, hr⟩ := h.source
  have hgrade : o.grade = r.grade := by rw [hr]; rfl
  have hcount := h.discCount
  refine ⟨o, ho, hgrade ▸ h.greatest, ?_⟩
  cases hold : s₀.find? k with
  | none =>
    rw [offers, hold, Option.toList_none, List.nil_append] at ho hcount
    obtain ⟨first, hfirst, hfr⟩ := Option.map_eq_some_iff.1 hcount
    rw [← hfr, discCount_savedRows (List.mem_of_head? hfirst) ho] at hr
    exact .inl hr
  | some old =>
    rw [offers, hold] at hcount
    rw [← Option.some.inj hcount] at hr
    by_cases hd : old.discCount = o.discCount
    · rw [hd] at hr
      exact .inl hr
    · exact .inr ⟨old, rfl, hd, hr⟩

end Serial

/-- How far a save is: not begun, past a first step that was not enough, or finished. -/
inductive Phase where
  | waiting | refused | finished
  deriving DecidableEq

def Phase.stepsLeft : Phase → ℕ
  | waiting => 2
  | refused => 1
  | finished => 0

/-- Saves that are under way at once, and what those that are finished have reported, in the order
in which they finished. -/
structure Race (ι : Type) where
  store : Store
  phase : ι → Phase
  reports : List (ι × SaveOutcome)

namespace Race

variable {ι : Type} [DecidableEq ι] {e : ι → Evaluation} {s₀ : Store} {w : Race ι}

def start (s₀ : Store) : Race ι := ⟨s₀, fun _ => .waiting, []⟩

def refuse (w : Race ι) (i : ι) : Race ι :=
  { w with phase := Function.update w.phase i .refused }

def finish (w : Race ι) (i : ι) (outcome : SaveOutcome) (s : Store) : Race ι where
  store := s
  phase := Function.update w.phase i .finished
  reports := w.reports ++ [(i, outcome)]

@[simp] theorem phase_refuse (w : Race ι) (i j : ι) :
    (w.refuse i).phase j = if j = i then .refused else w.phase j :=
  Function.update_apply ..

@[simp] theorem phase_finish (w : Race ι) (i j : ι) (outcome : SaveOutcome) (s : Store) :
    (w.finish i outcome s).phase j = if j = i then .finished else w.phase j :=
  Function.update_apply ..

def step (e : ι → Evaluation) (w : Race ι) (i : ι) : Race ι :=
  match w.phase i with
  | .waiting =>
    match w.store.firstStep (e i) with
    | (some outcome, s) => w.finish i outcome s
    | (none, _) => w.refuse i
  | .refused => w.finish i (w.store.secondStep (e i)).1 (w.store.secondStep (e i)).2
  | .finished => w

/-- The steps of a schedule, which names the save whose turn it is. -/
def run (e : ι → Evaluation) (s₀ : Store) (schedule : List ι) : Race ι :=
  schedule.foldl (step e) (start s₀)

theorem run_append_singleton (e : ι → Evaluation) (s₀ : Store) (schedule : List ι) (i : ι) :
    run e s₀ (schedule ++ [i]) = (run e s₀ schedule).step e i := by
  rw [run, List.foldl_append, ← run, List.foldl_cons, List.foldl_nil]

/-- The race is as one save after the other, and where a save was refused there is a row. -/
structure Serialized (e : ι → Evaluation) (s₀ : Store) (w : Race ι) : Prop where
  serial : Serial e s₀ w.reports w.store
  refused : ∀ i, w.phase i = .refused →
    (e i).isSavable = true ∧ w.store.find? (e i).row.position ≠ none
  finished : ∀ i, w.phase i = .finished → i ∈ w.reports.map Prod.fst

/-- What a step can do: nothing after the end, nothing to the store, or all that the save does. -/
theorem Serialized.step_cases (h : Serialized e s₀ w) (i : ι) :
    (w.phase i = .finished ∧ w.step e i = w) ∨
      (w.phase i = .waiting ∧ (e i).isSavable = true ∧
        w.store.find? (e i).row.position ≠ none ∧
        w.step e i = w.refuse i) ∨
      w.step e i = w.finish i (w.store.save (e i)).1 (w.store.save (e i)).2 := by
  cases hphase : w.phase i with
  | waiting =>
    rcases w.store.firstStep_cases (e i) with hfirst | ⟨hfirst, he, hrow⟩
    · exact .inr (.inr (by simp only [step, hphase, hfirst]))
    · exact .inr (.inl ⟨rfl, he, hrow, by simp only [step, hphase, hfirst]⟩)
  | refused =>
    obtain ⟨he, hrow⟩ := h.refused i hphase
    exact .inr (.inr (by simp only [step, hphase, secondStep_eq_save he hrow]))
  | finished => exact .inl ⟨rfl, by simp only [step, hphase]⟩

theorem Serialized.refuse (h : Serialized e s₀ w) {i : ι} (he : (e i).isSavable = true)
    (hrow : w.store.find? (e i).row.position ≠ none) : Serialized e s₀ (w.refuse i) where
  serial := h.serial
  refused j hj := by
    rw [phase_refuse] at hj
    split at hj
    · rename_i hji
      rw [hji]
      exact ⟨he, hrow⟩
    · exact h.refused j hj
  finished j hj := by
    rw [phase_refuse] at hj
    split at hj
    · cases hj
    · exact h.finished j hj

theorem Serialized.finish (hs : s₀.Unique) (h : Serialized e s₀ w) (i : ι) :
    Serialized e s₀ (w.finish i (w.store.save (e i)).1 (w.store.save (e i)).2) where
  serial := h.serial.save i
  refused j hj := by
    rw [phase_finish] at hj
    split at hj
    · cases hj
    · obtain ⟨he, hrow⟩ := h.refused j hj
      obtain ⟨r, hr⟩ := Option.ne_none_iff_exists'.1 hrow
      obtain ⟨r', hr', -⟩ := noBetter_save (h.serial.unique hs) (e i) _ r hr
      exact ⟨he, Option.ne_none_iff_exists'.2 ⟨r', hr'⟩⟩
  finished j hj := by
    rw [Race.finish, List.map_append, List.mem_append]
    rw [phase_finish] at hj
    split at hj
    · rename_i hji
      exact .inr (by simp [hji])
    · exact .inl (h.finished j hj)

theorem serialized_run (e : ι → Evaluation) (hs : s₀.Unique) (schedule : List ι) :
    Serialized e s₀ (run e s₀ schedule) := by
  induction schedule using List.reverseRecOn with
  | nil => exact ⟨.nil, fun _ h => (nomatch h), fun _ h => (nomatch h)⟩
  | append_singleton schedule i ih =>
    rw [run_append_singleton]
    rcases ih.step_cases i with ⟨-, hstep⟩ | ⟨-, he, hrow, hstep⟩ | hstep <;> rw [hstep]
    · exact ih
    · exact ih.refuse he hrow
    · exact ih.finish hs i

theorem Serialized.noBetter_step (hs : s₀.Unique) (h : Serialized e s₀ w) (i : ι) :
    w.store.NoBetter (w.step e i).store := by
  rcases h.step_cases i with ⟨-, hstep⟩ | ⟨-, -, -, hstep⟩ | hstep <;> rw [hstep]
  · exact .refl _
  · exact .refl _
  · exact noBetter_save (h.serial.unique hs) _

theorem noBetter_run (e : ι → Evaluation) (hs : s₀.Unique) (schedule later : List ι) :
    (run e s₀ schedule).store.NoBetter (run e s₀ (schedule ++ later)).store := by
  induction later using List.reverseRecOn with
  | nil => rw [List.append_nil]; exact .refl _
  | append_singleton later i ih =>
    rw [← List.append_assoc, run_append_singleton]
    exact ih.trans ((serialized_run e hs _).noBetter_step hs i)

/-- Each step brings its save nearer to its end, and sets none back. -/
theorem Serialized.stepsLeft_step (h : Serialized e s₀ w) (i j : ι) :
    ((w.step e i).phase j).stepsLeft ≤ (w.phase j).stepsLeft - if i = j then 1 else 0 := by
  by_cases hij : i = j
  · subst hij
    rcases h.step_cases i with ⟨hphase, hstep⟩ | ⟨hphase, -, -, hstep⟩ | hstep <;> rw [hstep]
    · simp [hphase, Phase.stepsLeft]
    · simp [hphase, Phase.stepsLeft]
    · simp [Phase.stepsLeft]
  · rw [if_neg hij, Nat.sub_zero]
    rcases h.step_cases i with ⟨-, hstep⟩ | ⟨-, -, -, hstep⟩ | hstep <;> rw [hstep]
    · rw [phase_refuse, if_neg (Ne.symm hij)]
    · rw [phase_finish, if_neg (Ne.symm hij)]

theorem stepsLeft_run (e : ι → Evaluation) (hs : s₀.Unique) (schedule : List ι) (j : ι) :
    ((run e s₀ schedule).phase j).stepsLeft ≤ 2 - schedule.count j := by
  induction schedule using List.reverseRecOn with
  | nil => exact le_rfl
  | append_singleton schedule i ih =>
    have hstep := (serialized_run e hs schedule).stepsLeft_step i j
    rw [run_append_singleton, List.count_append, List.count_singleton]
    by_cases hij : i = j <;> simp [hij] at hstep ⊢ <;> omega

/-- A save whose two steps nothing comes between is a save. -/
theorem run_undisturbed (e : ι → Evaluation) (s₀ : Store) (i : ι) :
    (run e s₀ [i, i]).store = (s₀.save (e i)).2 ∧
      (run e s₀ [i, i]).reports = [(i, (s₀.save (e i)).1)] := by
  have hrun : run e s₀ [i, i] = ((start s₀).step e i).step e i := rfl
  rcases s₀.firstStep_cases (e i) with hfirst | ⟨hfirst, he, hrow⟩
  · have hstep : (start s₀).step e i = (start s₀).finish i (s₀.save (e i)).1 (s₀.save (e i)).2 := by
      simp only [step, start, hfirst]
    rw [hrun, hstep, step, phase_finish, if_pos rfl]
    exact ⟨rfl, rfl⟩
  · have hstep : (start s₀).step e i = (start s₀).refuse i := by
      simp only [step, start, hfirst]
    rw [hrun, hstep, step, phase_refuse, if_pos rfl]
    change (s₀.secondStep (e i)).2 = _ ∧ [] ++ [(i, (s₀.secondStep (e i)).1)] = _
    rw [secondStep_eq_save he hrow]
    exact ⟨rfl, rfl⟩

/-- Saves race for any store, with any schedule of their steps. No position ever has two rows, no
row is lost or gets a lower grade, and no two saves for one position report that they have inserted
its row. The row of a position is at every moment one of a greatest grade among the row that it had
at first and those of the saves that are finished; if the row that it had counted its discs wrong,
that number alone stays. And a save is finished when both its steps are taken. -/
theorem racing_saves_keep_the_best (e : ι → Evaluation) (s₀ : Store) (hs : s₀.Unique)
    (schedule : List ι) :
    (run e s₀ schedule).store.Unique ∧
    (∀ later, (run e s₀ schedule).store.NoBetter (run e s₀ (schedule ++ later)).store) ∧
    (∀ i j, (i, .inserted) ∈ (run e s₀ schedule).reports →
      (j, .inserted) ∈ (run e s₀ schedule).reports →
      (e i).position.canonical = (e j).position.canonical → i = j) ∧
    (∀ k, ((run e s₀ schedule).store.find? k = none → offers e s₀ (run e s₀ schedule).reports k = []) ∧
      ∀ r, (run e s₀ schedule).store.find? k = some r →
        ∃ o ∈ offers e s₀ (run e s₀ schedule).reports k,
          (∀ q ∈ offers e s₀ (run e s₀ schedule).reports k, ¬o.grade < q.grade) ∧
          (r = o ∨ ∃ old, s₀.find? k = some old ∧ old.discCount ≠ o.discCount ∧
            r = { o with discCount := old.discCount })) ∧
    ∀ i, 2 ≤ schedule.count i → ∃ outcome, (i, outcome) ∈ (run e s₀ schedule).reports := by
  have hrun := serialized_run e hs schedule
  have hunique := hrun.serial.unique hs
  refine ⟨hunique, noBetter_run e hs schedule, fun i j hi hj hij => ?_, fun k => ⟨fun hk => ?_,
    fun r hr => ?_⟩, fun i hi => ?_⟩
  · have hpositions := hrun.serial.map_position hs
    rw [Unique, hpositions] at hunique
    have hmem : ∀ n, (n, SaveOutcome.inserted) ∈ (run e s₀ schedule).reports →
        (n, SaveOutcome.inserted) ∈
          (run e s₀ schedule).reports.filter fun report => report.2 = .inserted :=
      fun n hn => List.mem_filter.2 ⟨hn, by simp⟩
    have hrow : (e i).row.position = (e j).row.position := by
      rw [Evaluation.position_row, Evaluation.position_row, hij]
    exact congrArg Prod.fst (List.inj_on_of_nodup_map hunique.of_append_right (hmem i hi) (hmem j hj) hrow)
  · rw [hrun.serial.find? hs] at hk
    exact Row.best?_eq_none_iff.1 hk
  · rw [hrun.serial.find? hs] at hr
    exact eq_offer (Row.bestOf_of_best? hr)
  · have hleft := stepsLeft_run e hs schedule i
    have hphase : ((run e s₀ schedule).phase i) = .finished := by
      cases hphase : (run e s₀ schedule).phase i with
      | finished => rfl
      | waiting => rw [hphase, Phase.stepsLeft] at hleft; omega
      | refused => rw [hphase, Phase.stepsLeft] at hleft; omega
    obtain ⟨⟨_, outcome⟩, hreport, rfl⟩ := List.mem_map.1 (hrun.finished i hphase)
    exact ⟨outcome, hreport⟩

/-- Three saves of the first position, in two orientations. Two of them are refused by the row of the
first, and then the better one comes before the best. -/
theorem racing_saves_keep_the_best_two_refused :
    ∃ (e : Fin 3 → Evaluation) (w : Race (Fin 3)), empty.Unique ∧
      run e empty [0, 1, 2, 2, 1] = w ∧
      w.reports = [(0, .inserted), (2, .upgraded), (1, .upgraded)] ∧
      w.store.rows = [(e 1).row] ∧
      (∃ o ∈ offers e empty w.reports (e 0).row.position,
        ∀ q ∈ offers e empty w.reports (e 0).row.position, ¬o.grade < q.grade) ∧
      ∃ outcome, (1, outcome) ∈ w.reports := by
  let e : Fin 3 → Evaluation := fun i => match i with
    | 0 => ⟨.start, 16, 16, .p73, 0, []⟩
    | 1 => ⟨.rotate .start ⟨true, false, false⟩, 20, 20, .p73, 2, []⟩
    | 2 => ⟨.start, 18, 18, .p73, 1, []⟩
  have hunique : empty.Unique := by decide
  obtain ⟨-, -, -, hbest, hfinished⟩ :=
    racing_saves_keep_the_best e empty hunique [0, 1, 2, 2, 1]
  have hfound : (run e empty [0, 1, 2, 2, 1]).store.find? (e 0).row.position = some (e 1).row := by
    decide +kernel
  obtain ⟨o, ho, hgreatest, -⟩ := (hbest (e 0).row.position).2 _ hfound
  exact ⟨e, _, hunique, rfl, by decide +kernel, by decide +kernel, ⟨o, ho, hgreatest⟩,
    hfinished 1 (by decide)⟩

/-- If the store had rows of evaluations only at first, as saves write them, then the row of a position
is itself one of those that were offered for it, number of discs and all, and one of the best. -/
theorem row_mem_offers (hs : s₀.Unique) (hrows : ∀ r ∈ s₀.rows, ∃ a, r = .ofEvaluation a)
    (schedule : List ι) {k : List UInt8} {r : Row}
    (hr : (run e s₀ schedule).store.find? k = some r) :
    r ∈ offers e s₀ (run e s₀ schedule).reports k ∧
      ∀ q ∈ offers e s₀ (run e s₀ schedule).reports k, ¬r.grade < q.grade := by
  rw [(serialized_run e hs schedule).serial.find? hs] at hr
  obtain ⟨o, ho, hgreatest, rfl | ⟨old, hold, hcount, -⟩⟩ := eq_offer (Row.bestOf_of_best? hr)
  · exact ⟨ho, hgreatest⟩
  · refine absurd ?_ hcount
    obtain ⟨a, rfl⟩ := hrows old (mem_of_find? hold)
    rw [offers, hold] at ho
    rcases List.mem_cons.1 ho with rfl | ho
    · rfl
    · obtain ⟨hk, b, rfl⟩ := mem_savedRows ho
      exact Row.discCount_eq_of_position_eq ((position_of_find? hold).trans hk.symm)

end Race
end Store
end OthelloBook
