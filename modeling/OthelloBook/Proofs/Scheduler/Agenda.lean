import OthelloBook.Proofs.Scheduler.Consistency
import OthelloBook.Proofs.Store.WorkOrder

/-!
# The agenda of a book

All jobs that a book has for those who search: from few discs to many, and for each number of discs
as the work list shows them. What the scheduler loads at a number of discs is the part of the agenda
that no client holds.
-/
namespace OthelloBook.Store

variable {s : Store} {discs : ℕ}

/-- The jobs at a number of discs, in the order in which they are listed. -/
def agendaAt (s : Store) (discs : ℕ) : List Job :=
  ((s.worklist discs (Level.target discs)).toOption.getD []).map fun p => ⟨p, Level.target discs⟩

/-- The jobs at all numbers of discs from the first one up to and without `past`. -/
def agenda (s : Store) (past : ℕ) : List Job :=
  (Scheduler.discsFrom Level.minDiscs past).flatMap s.agendaAt

theorem agendaAt_of_worklist {ps : List Position}
    (h : s.worklist discs (Level.target discs) = .ok ps) :
    s.agendaAt discs = ps.map fun p => ⟨p, Level.target discs⟩ := by
  rw [agendaAt, h]
  rfl

theorem mem_agendaAt (hs : s.Sound) {j : Job} :
    j ∈ s.agendaAt discs ↔ j.position.discCount = discs ∧ j.level = Level.target discs ∧
      ∃ r ∈ s.rows, Below (Level.target discs) j.position r := by
  obtain ⟨ps, hps, -⟩ := worklist_of_sound hs discs (Level.target discs)
  rw [agendaAt_of_worklist hps, List.mem_map]
  constructor
  · rintro ⟨p, hp, rfl⟩
    obtain ⟨hdiscs, hrow⟩ := (mem_worklist hs hps).1 hp
    exact ⟨hdiscs, rfl, hrow⟩
  · rintro ⟨hdiscs, hlevel, hrow⟩
    refine ⟨j.position, (mem_worklist hs hps).2 ⟨hdiscs, hrow⟩, ?_⟩
    rw [← hlevel]

theorem mem_agenda (hs : s.Sound) {past : ℕ} (hpast : past ≤ Scheduler.pastLast) {j : Job} :
    j ∈ s.agenda past ↔ s.Work j.position ∧ j.level = Level.target j.position.discCount ∧
      j.position.discCount < past := by
  rw [agenda, List.mem_flatMap]
  constructor
  · rintro ⟨discs, hdiscs, hj⟩
    obtain ⟨rfl, hlevel, hrow⟩ := (mem_agendaAt hs).1 hj
    obtain ⟨hmin, hlt⟩ := Scheduler.mem_discsFrom.1 hdiscs
    exact ⟨⟨hmin, Nat.le_of_lt_succ (hlt.trans_le hpast), hrow⟩, hlevel, hlt⟩
  · rintro ⟨⟨hmin, -, hrow⟩, hlevel, hlt⟩
    exact ⟨_, Scheduler.mem_discsFrom.2 ⟨hmin, hlt⟩, (mem_agendaAt hs).2 ⟨rfl, hlevel, hrow⟩⟩

theorem pairwise_agendaAt (hs : s.Sound) (discs : ℕ) :
    (s.agendaAt discs).Pairwise fun i j => s.Before i.position j.position := by
  obtain ⟨ps, hps, hmap⟩ := worklist_of_sound hs discs (Level.target discs)
  have hrows : (ps.map Position.bytes).Pairwise fun x y =>
      ∃ a ∈ s.rows, ∃ b ∈ s.rows, a.position = x ∧ b.position = y ∧ s.Precedes a b := by
    rw [hmap, List.pairwise_map]
    refine (pairwise_rowsBelow hs discs _).imp_of_mem fun {a b} ha hb hab => ?_
    exact ⟨a, (mem_rowsBelow.1 ha).1, b, (mem_rowsBelow.1 hb).1, rfl, rfl, hab⟩
  rw [agendaAt_of_worklist hps, List.pairwise_map]
  refine (List.pairwise_map.1 hrows).imp_of_mem fun {p q} hp hq hpq => .inr ⟨?_, hpq⟩
  rw [((mem_worklist hs hps).1 hp).1, ((mem_worklist hs hps).1 hq).1]

theorem agenda_succ {past : ℕ} (h : Level.minDiscs ≤ past) :
    s.agenda (past + 1) = s.agenda past ++ s.agendaAt past := by
  have hdiscs : Scheduler.discsFrom Level.minDiscs (past + 1) =
      Scheduler.discsFrom Level.minDiscs past ++ [past] := by
    rw [Scheduler.discsFrom, Nat.sub_add_comm h, List.range'_concat, one_mul, Nat.add_sub_cancel' h,
      Scheduler.discsFrom]
  rw [agenda, hdiscs, List.flatMap_append, ← agenda, List.flatMap_singleton]

/-- The agenda does not grow where there are no jobs. -/
theorem agenda_eq_of_empty {first past : ℕ} (hmin : Level.minDiscs ≤ first) (hle : first ≤ past)
    (h : ∀ d, first ≤ d → d < past → s.agendaAt d = []) : s.agenda past = s.agenda first := by
  induction past, hle using Nat.le_induction with
  | base => rfl
  | succ past hle ih =>
    rw [agenda_succ (hmin.trans hle), h past hle (Nat.lt_succ_self past), List.append_nil]
    exact ih fun d hd hlt => h d hd (Nat.lt_succ_of_lt hlt)

/-- A save changes the agenda at its own number of discs only. -/
theorem agendaAt_save (hs : s.Sound) {e : Evaluation} (h : e.position.discCount ≠ discs) :
    (s.save e).2.agendaAt discs = s.agendaAt discs := by
  rw [agendaAt, agendaAt, worklist, worklist, rowsBelow_save hs h]

end OthelloBook.Store

namespace OthelloBook.Scheduler

variable {b : Store} {s : Scheduler} {ds : List ℕ} {js : ℕ → List Job}

theorem loadJobs_eq_agendaAt (hb : b.Sound) (s : Scheduler) (discs : ℕ) :
    loadJobs Store.storage s discs b =
      (.ok ((b.agendaAt discs).filter fun j => j.position ∉ s.held), b) := by
  obtain ⟨ps, hps, -⟩ := Store.worklist_of_sound hb discs (Level.target discs)
  change ((b.worklist discs (Level.target discs)).map _, b) = _
  rw [Store.agendaAt_of_worklist hps, hps, List.filter_map]
  rfl

/-- A search comes back with the first number of discs at which something is loaded. -/
theorem search_eq_find? (h : ∀ d ∈ ds, loadJobs Store.storage s d b = (.ok (js d), b)) :
    search Store.storage s ds b =
      (.ok ((ds.find? fun d => js d ≠ []).map fun d => (d, js d)), b) := by
  induction ds with
  | nil => rfl
  | cons d ds ih =>
    obtain ⟨hload, hrest⟩ := List.forall_mem_cons.1 h
    rw [search, hload]
    cases hjs : js d with
    | nil => rw [List.find?_cons_of_neg (by simp [hjs])]; exact ih hrest
    | cons j rest => rw [List.find?_cons_of_pos (by simp [hjs]), Option.map_some, hjs]

end OthelloBook.Scheduler
