import OthelloBook.Proofs.Store.Mirror
import OthelloBook.Proofs.Store.Priorities
import OthelloBook.Proofs.Store.Races

/-!
# What writers leave behind

Writers make their calls at the same time, each of them one save after the other, and the steps of
their saves come between each other. As the saves are in effect made one after the other, each row is
that of the evaluation that was last written there, and it is read back as that evaluation.
-/
namespace OthelloBook

/-- A row that is read back as an evaluation, with all that the book asks of what it keeps. -/
structure Row.ReadsAs (r : Row) (e : Evaluation) : Prop where
  position : Position.ofBytes r.position = .ok e.position
  canonical : e.position.canonical = e.position
  hasMoves : e.position.hasMoves = true
  discCount_le : e.position.discCount ≤ 30
  discCount : r.discCount = e.position.discCount
  level_even : r.level % 2 = 0
  le_level : 16 ≤ r.level
  level_le : r.level ≤ 60
  priority : r.priority = 3 * r.level + r.discCount
  bestMoves : r.bestMoves = e.bestMoves.map Move.byte
  evaluation : r.evaluation = .ok e

namespace Store

/-- The row of a valid evaluation that is kept is read back as it. -/
theorem Kept.readsAs {e : Evaluation} (h : Kept e) (hvalid : e.Valid) :
    (Row.ofEvaluation e).ReadsAs e := by
  have hsavable := h.savable
  simp only [Evaluation.isSavable, Position.isSavable, Bool.and_eq_true,
    decide_eq_true_eq] at hsavable
  obtain ⟨hlevel, hmoves, hdiscs⟩ := hsavable
  exact {
    position := e.position.ofBytes_bytes
    canonical := h.canonical
    hasMoves := hmoves
    discCount_le := hdiscs
    discCount := rfl
    level_even := congrArg Nat.cast hvalid.level_even
    le_level := Int.ofNat_le.2 hlevel
    level_le := Int.ofNat_le.2 hvalid.level_le
    priority := by simp [Row.ofEvaluation, learnPriority]
    bestMoves := rfl
    evaluation := Row.evaluation_ofEvaluation hvalid }

section LastWrite

variable {ι : Type} {e : ι → Evaluation} {log : List (ι × SaveOutcome)} {s : Store}

/-- The evaluation of the last save of a log that has changed the row of a position. -/
def lastWrite? (e : ι → Evaluation) (log : List (ι × SaveOutcome)) (k : List UInt8) :
    Option Evaluation :=
  (log.reverse.find? fun report =>
    report.2.isChange && decide ((e report.1).row.position = k)).map fun report => e report.1

theorem lastWrite?_append_singleton (e : ι → Evaluation) (log : List (ι × SaveOutcome)) (i : ι)
    (outcome : SaveOutcome) (k : List UInt8) :
    lastWrite? e (log ++ [(i, outcome)]) k =
      if outcome.isChange = true ∧ (e i).row.position = k then some (e i)
      else lastWrite? e log k := by
  by_cases h : outcome.isChange = true ∧ (e i).row.position = k <;> simp [lastWrite?, h]

theorem exists_of_lastWrite? {k : List UInt8} {a : Evaluation} (h : lastWrite? e log k = some a) :
    ∃ i outcome, (i, outcome) ∈ log ∧ outcome.isChange = true ∧ e i = a := by
  obtain ⟨⟨i, outcome⟩, hfound, rfl⟩ := Option.map_eq_some_iff.1 h
  have hlast := List.find?_some hfound
  rw [Bool.and_eq_true] at hlast
  exact ⟨i, outcome, List.mem_reverse.1 (List.mem_of_find?_eq_some hfound), hlast.1, rfl⟩

/-- A save writes its row when it reports a change, and else it leaves the store as it is. The number
of discs, which the second step does not write, is that of the position. -/
theorem Sound.find?_save (hs : s.Sound) (a : Evaluation) (k : List UInt8) :
    (s.save a).2.find? k =
      if (s.save a).1.isChange = true ∧ a.row.position = k then some a.row else s.find? k := by
  by_cases ha : a.isSavable = true
  · rw [save_of_savable ha]
    by_cases hk : a.row.position = k
    · rw [find?_put hs.distinct, if_pos hk, ← hk]
      cases hq : s.find? a.row.position with
      | none => simp [put_of_none hq, SaveOutcome.isChange]
      | some q =>
        have hdiscs : q.discCount = a.row.discCount :=
          (hs.of_position (p := a.canonicalize.position) (mem_of_find? hq) (position_of_find? hq)).2.2
        by_cases hlt : q.grade < a.row.grade
        · simp [put_of_lt hq hlt, SaveOutcome.isChange, Row.better_of_lt hlt, hdiscs]
        · simp [put_of_not_lt hs.distinct hq hlt, SaveOutcome.isChange, Row.better_of_not_lt hlt]
    · rw [find?_put hs.distinct, if_neg hk, if_neg (mt And.right hk)]
  · simp [save_of_not_savable ha, SaveOutcome.isChange]

namespace Serial

theorem eq_filled (h : Serial e empty log s) : s = filled (log.map fun report => e report.1) := by
  induction h with
  | nil => rfl
  | save before i ih =>
    rw [List.map_append, List.map_singleton, filled_append_singleton, ← ih]

theorem sound (h : Serial e empty log s) : s.Sound := h.eq_filled ▸ sound_filled _

theorem isSavable (h : Serial e empty log s) {i : ι} {outcome : SaveOutcome}
    (hreport : (i, outcome) ∈ log) (hchange : outcome.isChange = true) :
    (e i).isSavable = true := by
  induction h with
  | nil => cases hreport
  | @save log s before j ih =>
    rcases List.mem_append.1 hreport with hreport | hreport
    · exact ih hreport
    · obtain ⟨rfl, rfl⟩ := Prod.mk.inj (List.mem_singleton.1 hreport)
      by_contra hsavable
      rw [save_of_not_savable hsavable] at hchange
      cases hchange

/-- The row of a position is that of the evaluation that was last written there. -/
theorem find?_eq_lastWrite? (h : Serial e empty log s) (k : List UInt8) :
    s.find? k = (lastWrite? e log k).map Evaluation.row := by
  induction h with
  | nil => rfl
  | save before i ih =>
    rw [before.sound.find?_save, lastWrite?_append_singleton, ih]
    split_ifs <;> rfl

end Serial

theorem lookup_filled {es : List Evaluation} (hvalid : ∀ a ∈ es, a.Valid) (ps : List Position) :
    ∃ found, (filled es).lookup ps = .ok found := by
  obtain ⟨found, hfound, -⟩ := (mirrors_filled es).lookup (Cache.keyed_ofList _)
    (fun k a => Cache.valid_of_get?_ofList fun o ho => hvalid o (List.mem_of_mem_filter ho)) ps
  exact ⟨found, hfound⟩

end LastWrite

namespace Race

variable {ι : Type} [DecidableEq ι] {calls : ι → List Call}

def saved (calls : ι → List Call) (i : ι) : List Evaluation := (calls i).flatMap Call.evaluations

/-- A save of a writer, by its place among all saves of that writer. -/
abbrev Saving (calls : ι → List Call) : Type := (i : ι) × Fin (saved calls i).length

def Saving.evaluation (n : Saving calls) : Evaluation := (saved calls n.1)[n.2]

/-- The next step of a writer: that of the first of its saves that is not finished. -/
def turn (w : Race (Saving calls)) (i : ι) : Race (Saving calls) :=
  match Fin.find? fun n => decide (w.phase ⟨i, n⟩ ≠ .finished) with
  | some n => w.step Saving.evaluation ⟨i, n⟩
  | none => w

def turns (calls : ι → List Call) (schedule : List ι) : Race (Saving calls) :=
  schedule.foldl turn (start empty)

theorem turns_append_singleton (schedule : List ι) (i : ι) :
    turns calls (schedule ++ [i]) = (turns calls schedule).turn i := by
  rw [turns, List.foldl_append, ← turns, List.foldl_cons, List.foldl_nil]

/-- The turns of writers are steps of a race of all their saves. -/
theorem exists_run_eq_turns (calls : ι → List Call) (schedule : List ι) :
    ∃ saves, turns calls schedule = run Saving.evaluation empty saves := by
  induction schedule using List.reverseRecOn with
  | nil => exact ⟨[], rfl⟩
  | append_singleton schedule i ih =>
    obtain ⟨saves, hsaves⟩ := ih
    rw [turns_append_singleton, turn]
    split
    · rename_i n hn
      exact ⟨saves ++ [⟨i, n⟩], by rw [run_append_singleton, hsaves]⟩
    · exact ⟨saves, hsaves⟩

theorem serial_turns (calls : ι → List Call) (schedule : List ι) :
    Serial Saving.evaluation empty (turns calls schedule).reports (turns calls schedule).store := by
  obtain ⟨saves, hsaves⟩ := exists_run_eq_turns calls schedule
  rw [hsaves]
  exact (serialized_run _ sound_empty.distinct saves).serial

theorem turn_eq_step {w : Race (Saving calls)} {i : ι} {n : Fin (saved calls i).length}
    (hbefore : ∀ m < n, w.phase ⟨i, m⟩ = .finished) (hn : w.phase ⟨i, n⟩ ≠ .finished) :
    w.turn i = w.step Saving.evaluation ⟨i, n⟩ := by
  have hfind : (Fin.find? fun n => decide (w.phase ⟨i, n⟩ ≠ .finished)) = some n := by
    rw [Fin.find?_eq_some_iff]
    exact ⟨by simpa using hn, fun m hm => by simp [hbefore m hm]⟩
  rw [turn, hfind]

/-- One step or two finish a save that is not begun. -/
theorem exists_turns_save {w : Race (Saving calls)} {i : ι} {n : Fin (saved calls i).length}
    (hbefore : ∀ m < n, w.phase ⟨i, m⟩ = .finished) (hn : w.phase ⟨i, n⟩ = .waiting) :
    ∃ (again : List ι) (outcome : SaveOutcome), again.foldl turn w =
      w.finish ⟨i, n⟩ outcome (w.store.save (Saving.evaluation ⟨i, n⟩)).2 := by
  have hfirst := turn_eq_step hbefore (by simp [hn])
  -- A refused save has the second step left, and it is still the first that is not finished.
  rcases w.store.firstStep_cases (Saving.evaluation ⟨i, n⟩) with hstep | ⟨hstep, hsavable, hrow⟩
  · refine ⟨[i], (w.store.save (Saving.evaluation ⟨i, n⟩)).1, ?_⟩
    rw [List.foldl_cons, List.foldl_nil, hfirst, step, hn]
    simp only [hstep]
  · have hrefused : w.step Saving.evaluation ⟨i, n⟩ = w.refuse ⟨i, n⟩ := by
      rw [step, hn]
      simp only [hstep]
    have hstill : ∀ m < n, (w.refuse ⟨i, n⟩).phase ⟨i, m⟩ = .finished := by
      intro m hm
      rw [phase_refuse, if_neg (by simpa using hm.ne), hbefore m hm]
    have hsecond := turn_eq_step hstill (by simp)
    refine ⟨[i, i], (w.store.save (Saving.evaluation ⟨i, n⟩)).1, ?_⟩
    rw [List.foldl_cons, List.foldl_cons, List.foldl_nil, hfirst, hrefused, hsecond, step,
      phase_refuse, if_pos rfl]
    change (w.refuse ⟨i, n⟩).finish ⟨i, n⟩ (w.store.secondStep _).1 (w.store.secondStep _).2 = _
    rw [secondStep_eq_save hsavable hrow]
    simp [refuse, finish]

/-- A writer whom nobody disturbs makes its calls one after the other. -/
theorem exists_turns_eq_afterCalls (calls : ι → List Call) (i : ι) :
    ∃ schedule, (turns calls schedule).store = afterCalls (calls i) := by
  have hsaves : ∀ m ≤ (saved calls i).length, ∃ schedule,
      (turns calls schedule).store = filled ((saved calls i).take m) ∧
      ∀ n : Fin (saved calls i).length,
        (turns calls schedule).phase ⟨i, n⟩ = if n < m then .finished else .waiting := by
    intro m hm
    induction m with
    | zero => exact ⟨[], rfl, fun n => rfl⟩
    | succ m ih =>
      obtain ⟨schedule, hstore, hphase⟩ := ih (Nat.le_of_succ_le hm)
      obtain ⟨again, outcome, hagain⟩ := exists_turns_save (n := ⟨m, hm⟩)
        (fun j hj => (hphase j).trans (if_pos hj)) ((hphase ⟨m, hm⟩).trans (if_neg (lt_irrefl m)))
      refine ⟨schedule ++ again, ?_, fun n => ?_⟩ <;>
        rw [turns, List.foldl_append, ← turns, hagain]
      · rw [List.take_succ_eq_append_getElem hm, filled_append_singleton, ← hstore]
        rfl
      · rw [phase_finish, hphase]
        by_cases hn : n = ⟨m, hm⟩
        · subst hn
          simp
        · have hne : n.val ≠ m := fun h => hn (Fin.ext h)
          have hiff : n.val < m + 1 ↔ n.val < m := by omega
          rw [if_neg (by simpa using hn)]
          simp only [hiff]
  obtain ⟨schedule, hstore, -⟩ := hsaves _ le_rfl
  exact ⟨schedule, by rw [hstore, List.take_length, afterCalls_eq_filled, saved]⟩

/-- Whatever writers save, and whoever's turn it is, each row is read back as the canonical image of
the evaluation that was last written there, with its number of discs and the priority of its level.
So nothing that is asked of the store is refused as corrupt. -/
theorem rows_are_read_back (calls : ι → List Call)
    (hvalid : ∀ i, ∀ call ∈ calls i, ∀ e ∈ call.evaluations, e.Valid) (schedule : List ι) :
    (∀ r ∈ (turns calls schedule).store.rows, ∃ e,
      lastWrite? Saving.evaluation (turns calls schedule).reports r.position = some e ∧
        r.ReadsAs e.canonicalize) ∧
    (∀ ps, ∃ found, (turns calls schedule).store.lookup ps = .ok found) ∧
    (∀ discs level, ∃ ps, (turns calls schedule).store.worklist discs level = .ok ps) ∧
    ∀ limit, ∃ jobs, (turns calls schedule).store.byPriority limit = .ok jobs := by
  have hserial := serial_turns calls schedule
  have hsound := hserial.sound
  have hsaving : ∀ n : Saving calls, n.evaluation.Valid := by
    intro n
    obtain ⟨call, hcall, he⟩ := List.mem_flatMap.1 (List.getElem_mem n.2.isLt)
    exact hvalid n.1 call hcall _ he
  refine ⟨fun r hr => ?_, fun ps => ?_, fun discs level => ?_, fun limit => ?_⟩
  · have hrow := find?_of_mem hsound.distinct hr
    rw [hserial.find?_eq_lastWrite?, Option.map_eq_some_iff] at hrow
    obtain ⟨e, hlast, rfl⟩ := hrow
    obtain ⟨n, outcome, hreport, hchange, rfl⟩ := exists_of_lastWrite? hlast
    exact ⟨_, hlast,
      (kept_canonicalize (hserial.isSavable hreport hchange)).readsAs (hsaving n).canonicalize⟩
  · rw [hserial.eq_filled]
    apply lookup_filled
    intro e he
    obtain ⟨report, -, rfl⟩ := List.mem_map.1 he
    exact hsaving report.1
  · obtain ⟨ps, hps, -⟩ := worklist_of_sound hsound discs level
    exact ⟨ps, hps⟩
  · obtain ⟨jobOf, hjobs⟩ := exists_readsJobs hsound
    exact ⟨_, hjobs.byPriority limit⟩

/-- One writer saves the first position and a position after whose only move both sides pass; the save
of another one, who has a better search of an image of the first position, is refused in between and
then replaces its row. Both rows have negative scores. -/
theorem rows_are_read_back_with_a_pass :
    ∃ (calls : Fin 2 → List Call) (schedule : List (Fin 2)) (first corner : Evaluation) (r q : Row),
      (∀ i, ∀ call ∈ calls i, ∀ e ∈ call.evaluations, e.Valid) ∧
      (turns calls schedule).store.rows = [r, q] ∧
      r.ReadsAs first.canonicalize ∧ r.score = -7 ∧
      q.ReadsAs corner.canonicalize ∧ q.score = -10 ∧ q.bestMoves.getLast? = some 255 := by
  let first : Evaluation := ⟨.rotate .start ⟨true, false, false⟩, 18, 18, .p73, -7, []⟩
  let corner : Evaluation := ⟨⟨0x80, 0x40, by decide⟩, 20, 20, .p73, -10, [.play 5, .pass]⟩
  let calls : Fin 2 → List Call := fun i => match i with
    | 0 => [.saveAll [⟨.start, 16, 16, .p73, -3, []⟩, corner]]
    | 1 => [.save first]
  have hvalid : ∀ i, ∀ call ∈ calls i, ∀ e ∈ call.evaluations, e.Valid := by
    simp only [Fin.forall_fin_two, calls, List.forall_mem_cons, Call.evaluations, List.not_mem_nil,
      false_imp_iff, implies_true, and_true, ← Evaluation.fault?_eq_none_iff]
    decide +kernel
  obtain ⟨hrows, -⟩ := rows_are_read_back calls hvalid [0, 1, 0, 1]
  have hfinal : (turns calls [0, 1, 0, 1]).store.rows = [first.row, corner.row] := by decide +kernel
  have hread : ∀ e, e.row ∈ (turns calls [0, 1, 0, 1]).store.rows →
      lastWrite? Saving.evaluation (turns calls [0, 1, 0, 1]).reports e.row.position = some e →
      e.row.ReadsAs e.canonicalize := by
    intro e he hlast
    obtain ⟨a, ha, hreads⟩ := hrows _ he
    rwa [Option.some.inj (ha.symm.trans hlast)] at hreads
  exact ⟨calls, [0, 1, 0, 1], first, corner, first.row, corner.row, hvalid, hfinal,
    hread first (by simp [hfinal]) (by decide +kernel), rfl,
    hread corner (by simp [hfinal]) (by decide +kernel), rfl, by decide +kernel⟩

end Race
end Store
end OthelloBook
