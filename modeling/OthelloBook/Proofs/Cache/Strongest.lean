import OthelloBook.Evaluation
import OthelloBook.Proofs.Store.Rows

/-!
# The first of the strongest

Of two evaluations that arrive one after the other the later is kept only if its search was
stronger. What is left of a whole list is the first of its strongest, whichever way the list is cut
into parts that are merged in order.
-/
namespace OthelloBook

namespace Evaluation

variable {a b e : Evaluation} {es : List Evaluation}

theorem isBetterThan_iff : b.isBetterThan a = true ↔ a.strength < b.strength := by
  rw [isBetterThan, decide_eq_true_eq]

/-- What is kept of two evaluations that arrive in this order. -/
def better (a b : Evaluation) : Evaluation := if b.isBetterThan a then b else a

theorem better_of_lt (h : a.strength < b.strength) : better a b = b :=
  if_pos (isBetterThan_iff.2 h)

theorem better_of_not_lt (h : ¬a.strength < b.strength) : better a b = a :=
  if_neg (mt isBetterThan_iff.1 h)

instance : Std.Associative better where
  assoc a b c := by
    by_cases hab : a.strength < b.strength <;> by_cases hbc : b.strength < c.strength
    · rw [better_of_lt hab, better_of_lt hbc, better_of_lt (trans_of (· < ·) hab hbc)]
    · rw [better_of_lt hab, better_of_not_lt hbc, better_of_lt hab]
    · rw [better_of_not_lt hab, better_of_lt hbc]
    · have hac : ¬a.strength < c.strength := fun h => hab (trans_trichotomous_right h hbc)
      rw [better_of_not_lt hab, better_of_not_lt hbc, better_of_not_lt hab, better_of_not_lt hac]

theorem merge_better_assoc (a b c : Option Evaluation) :
    (a.merge better b).merge better c = a.merge better (b.merge better c) :=
  Std.Associative.assoc a b c

/-- What is left of evaluations that arrive one after the other. -/
def strongest? (es : List Evaluation) : Option Evaluation :=
  es.foldl (fun found e => found.merge better (some e)) none

theorem foldl_merge (found : Option Evaluation) (es : List Evaluation) :
    es.foldl (fun found e => found.merge better (some e)) found =
      found.merge better (strongest? es) := by
  induction es generalizing found with
  | nil => exact Option.merge_none_right.symm
  | cons e es ih =>
    rw [strongest?, List.foldl_cons, List.foldl_cons, ih, ih, Option.merge_none_left,
      merge_better_assoc]

@[simp] theorem strongest?_nil : strongest? [] = none := rfl

theorem strongest?_append (es fs : List Evaluation) :
    strongest? (es ++ fs) = (strongest? es).merge better (strongest? fs) := by
  rw [strongest?, List.foldl_append, foldl_merge]
  rfl

theorem strongest?_cons (e : Evaluation) (es : List Evaluation) :
    strongest? (e :: es) = (some e).merge better (strongest? es) :=
  strongest?_append [e] es

/-- Those before it are weaker, and none after it is stronger. -/
def FirstStrongest (es : List Evaluation) (e : Evaluation) : Prop :=
  ∃ before after, es = before ++ e :: after ∧ (∀ f ∈ before, f.strength < e.strength) ∧
    ∀ f ∈ after, ¬e.strength < f.strength

namespace FirstStrongest

theorem mem (h : FirstStrongest es e) : e ∈ es := by
  obtain ⟨before, after, rfl, -, -⟩ := h
  simp

theorem not_lt (h : FirstStrongest es e) {f : Evaluation} (hf : f ∈ es) :
    ¬e.strength < f.strength := by
  obtain ⟨before, after, rfl, hbefore, hafter⟩ := h
  rcases List.mem_append.1 hf with hf | hf
  · exact asymm (hbefore f hf)
  · rcases List.mem_cons.1 hf with rfl | hf
    · exact irrefl _
    · exact hafter f hf

theorem cons_of_lt (h : FirstStrongest es e) (ha : a.strength < e.strength) :
    FirstStrongest (a :: es) e := by
  obtain ⟨before, after, rfl, hbefore, hafter⟩ := h
  exact ⟨a :: before, after, rfl, List.forall_mem_cons.2 ⟨ha, hbefore⟩, hafter⟩

theorem cons_of_not_lt (h : FirstStrongest es e) (ha : ¬a.strength < e.strength) :
    FirstStrongest (a :: es) a :=
  ⟨[], es, rfl, by simp, fun _ hf hlt => ha (trans_trichotomous_right hlt (h.not_lt hf))⟩

end FirstStrongest

theorem strongest?_eq_none_iff : strongest? es = none ↔ es = [] := by
  cases es with
  | nil => simp
  | cons e es => simp [strongest?_cons, Option.merge_eq_none_iff]

theorem firstStrongest_of_strongest? (h : strongest? es = some e) : FirstStrongest es e := by
  induction es generalizing e with
  | nil => cases h
  | cons a es ih =>
    rw [strongest?_cons] at h
    cases hrest : strongest? es with
    | none =>
      obtain rfl := strongest?_eq_none_iff.1 hrest
      obtain rfl : a = e := by simpa using h
      exact ⟨[], [], rfl, by simp, by simp⟩
    | some f =>
      obtain rfl : better a f = e := by simpa [hrest] using h
      by_cases hlt : a.strength < f.strength
      · rw [better_of_lt hlt]
        exact (ih hrest).cons_of_lt hlt
      · rw [better_of_not_lt hlt]
        exact (ih hrest).cons_of_not_lt hlt

/-- What is left is the first of the strongest. -/
theorem strongest?_eq_some_iff : strongest? es = some e ↔ FirstStrongest es e := by
  refine ⟨firstStrongest_of_strongest?, ?_⟩
  rintro ⟨before, after, rfl, hbefore, hafter⟩
  have hleft : (strongest? before).merge better (some e) = some e := by
    cases hb : strongest? before with
    | none => rfl
    | some f =>
      have hlt := hbefore f (firstStrongest_of_strongest? hb).mem
      rw [Option.merge_some_some, better_of_lt hlt]
  have hright : (some e).merge better (strongest? after) = some e := by
    cases ha : strongest? after with
    | none => rfl
    | some f =>
      have hlt := hafter f (firstStrongest_of_strongest? ha).mem
      rw [Option.merge_some_some, better_of_not_lt hlt]
  rw [strongest?_append, strongest?_cons, hright, hleft]

/-- Evaluations of distinct strengths leave the same in whatever order they arrive. -/
theorem strongest?_perm {fs : List Evaluation} (hperm : es.Perm fs)
    (hdistinct : (es.map strength).Nodup) : strongest? es = strongest? fs := by
  cases h : strongest? es with
  | none =>
    obtain rfl := strongest?_eq_none_iff.1 h
    rw [← hperm.nil_eq, strongest?_nil]
  | some e =>
    have hfirst := firstStrongest_of_strongest? h
    obtain ⟨before, after, rfl⟩ := List.append_of_mem (hperm.mem_iff.1 hfirst.mem)
    have hfs := (hperm.map strength).nodup_iff.1 hdistinct
    rw [List.map_append, List.map_cons, List.nodup_append] at hfs
    refine (strongest?_eq_some_iff.2 ⟨before, after, rfl, fun f hf => ?_, fun f hf => ?_⟩).symm
    · -- One that comes earlier now is neither stronger nor, as the strengths differ, as strong.
      by_contra hlt
      have hne := hfs.2.2 _ (List.mem_map_of_mem hf) _ List.mem_cons_self
      exact hne (Std.Trichotomous.trichotomous _ _ hlt (hfirst.not_lt (hperm.mem_iff.2 (by simp [hf]))))
    · exact hfirst.not_lt (hperm.mem_iff.2 (by simp [hf]))

end Evaluation
end OthelloBook
