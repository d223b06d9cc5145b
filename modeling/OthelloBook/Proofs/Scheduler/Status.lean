import Mathlib.Data.Prod.Lex
import Mathlib.Data.String.Basic
import OthelloBook.Proofs.Scheduler.Jobs
import OthelloBook.Proofs.Text.Hexadecimal

/-!
# The status does not depend on the registry

An identity is read back from its text, so that no two identities have the same text. Clients with as
many results are told apart by these texts, and so the status of the scheduler is the same in whatever
order its clients turn up.
-/
namespace OthelloBook

theorem Text.pieces_eq_splitOn {α : Type*} [DecidableEq α] (mark : α) (cs : List α) :
    pieces mark cs = cs.splitOn mark := by
  induction cs with
  | nil => rfl
  | cons c cs ih =>
    rw [pieces, List.splitOn_eq_splitOnP, List.splitOnP_cons_eq_if_modifyHead,
      ← List.splitOn_eq_splitOnP, ih]
    by_cases hc : c = mark
    · simp [hc]
    · cases h : cs.splitOn mark with
      | nil => simp at h
      | cons p ps => simp [hc]

namespace Identity

theorem flatten_cutGroups {ns : List ℕ} {cs : List Char} (h : cs.length = ns.sum) :
    (cutGroups ns cs).flatten = cs := by
  induction ns generalizing cs with
  | nil => exact (List.eq_nil_of_length_eq_zero h).symm
  | cons n ns ih =>
    rw [cutGroups, List.flatten_cons, ih (by simp [h]), List.take_append_drop]

theorem map_length_cutGroups {ns : List ℕ} {cs : List Char} (h : cs.length = ns.sum) :
    (cutGroups ns cs).map List.length = ns := by
  induction ns generalizing cs with
  | nil => rfl
  | cons n ns ih =>
    rw [cutGroups, List.map_cons, ih (by simp [h]), List.length_take, h, List.sum_cons,
      Nat.min_eq_left (Nat.le_add_right ..)]

theorem length_digitChars (id : Identity) : id.digitChars.length = 32 := Text.length_hexFixed ..

theorem not_mem_digitChars (id : Identity) : '-' ∉ id.digitChars := fun h =>
  (Text.plain_of_mem_hexFixed h).2.2 rfl

theorem ofDigits?_digitChars (id : Identity) : ofDigits? id.digitChars = some id := by
  have hlt : id.bits.toNat < 16 ^ 32 := id.bits.isLt
  rw [ofDigits?, if_pos id.length_digitChars, digitChars, Text.digits?_hexFixed (by decide) hlt,
    Option.map_some, BitVec.ofNat_toNat, BitVec.setWidth_eq]

theorem ofGroups?_groupedChars (id : Identity) : ofGroups? id.groupedChars = some id := by
  have hlength : id.digitChars.length = groupSizes.sum := id.length_digitChars
  have hflatten := flatten_cutGroups hlength
  have hpieces : Text.pieces '-' id.groupedChars = cutGroups groupSizes id.digitChars := by
    rw [Text.pieces_eq_splitOn, groupedChars]
    refine List.splitOn_intercalate _ (fun group hgroup hmem => ?_) (by simp [groupSizes, cutGroups])
    exact id.not_mem_digitChars (hflatten ▸ List.mem_flatten_of_mem hgroup hmem)
  rw [ofGroups?, hpieces, if_pos (map_length_cutGroups hlength), hflatten, ofDigits?_digitChars]

/-- An identity is read back from its text. -/
theorem parse?_text (id : Identity) : parse? id.text = some id := by
  have hlength : id.groupedChars.length = 36 := by
    simp [groupedChars, groupSizes, cutGroups, length_digitChars]
  rw [parse?, text, String.toList_ofList, ofGroups?_groupedChars, ofDigits?, if_neg (by omega)]
  rfl

theorem text_injective : Function.Injective text := fun a b h => by
  rw [← Option.some_inj, ← a.parse?_text, h, b.parse?_text]

end Identity

namespace Scheduler

variable {s : Scheduler} {clients : List Client}

def rank (c : Client) : ℕᵒᵈ ×ₗ String := toLex (OrderDual.toDual c.computed, c.id.text)

theorem ranksBefore_iff {a b : Client} : ranksBefore a b = true ↔ rank a ≤ rank b := by
  simp [ranksBefore, rank, Prod.Lex.toLex_le_toLex, eq_comm (a := b.computed)]

theorem pairwise_ranking (s : Scheduler) : s.ranking.Pairwise fun a b => rank a ≤ rank b := by
  refine (List.pairwise_mergeSort (fun a b c => ?_) (fun a b => ?_) s.clients).imp ranksBefore_iff.1
  · simpa only [ranksBefore_iff] using le_trans
  · simpa only [Bool.or_eq_true, ranksBefore_iff] using le_total (rank a) (rank b)

theorem ranking_perm (s : Scheduler) : s.ranking.Perm s.clients := List.mergeSort_perm ..

/-- Clients are ranked alike in whatever order they turn up. -/
theorem ranking_reorder (hids : (s.clients.map Client.id).Nodup) (hperm : clients.Perm s.clients) :
    ({ s with clients := clients } : Scheduler).ranking = s.ranking := by
  refine List.Perm.eq_of_pairwise (fun a b ha hb hab hba => ?_) (pairwise_ranking _)
    (pairwise_ranking s) (((ranking_perm _).trans hperm).trans s.ranking_perm.symm)
  have hrank : rank a = rank b := le_antisymm hab hba
  have htext : a.id.text = b.id.text := congrArg (fun r => (ofLex r).2) hrank
  exact List.inj_on_of_nodup_map hids (hperm.mem_iff.1 ((ranking_perm _).mem_iff.1 ha))
    (s.ranking_perm.mem_iff.1 hb) (Identity.text_injective htext)

theorem status_reorder (hids : (s.clients.map Client.id).Nodup) (hperm : clients.Perm s.clients) :
    ({ s with clients := clients } : Scheduler).status = s.status := by
  rw [status, status, ranking_reorder hids hperm, hperm.length_eq]

end Scheduler
end OthelloBook
