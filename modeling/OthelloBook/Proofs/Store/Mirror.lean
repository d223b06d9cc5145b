import OthelloBook.Proofs.Cache.Lookup
import OthelloBook.Proofs.Store.Puts
import OthelloBook.Proofs.Store.Rows
import OthelloBook.Store.Query

/-!
# The store keeps what a cache keeps

A store that is filled by saves and a cache to which the same evaluations are added hold the same:
the row of each position is that of its entry. So each save does to the store what the addition does
to the cache, and the rows that are fetched for a list of positions answer every lookup in it as the
cache does.
-/
namespace OthelloBook

open Evaluation

namespace Cache

def Within (d c : Cache) : Prop := ∀ k e, d.get? k = some e → c.get? k = some e

variable {b c d : Cache}

theorem Within.refl (c : Cache) : c.Within c := fun _ _ h => h

theorem Within.trans (hbc : b.Within c) (hcd : c.Within d) : b.Within d :=
  fun k e h => hcd k e (hbc k e h)

/-- An offer of an entry of a greater cache adds just that entry. -/
theorem Within.offer (h : d.Within c) {k : Position} {e : Evaluation} (he : c.get? k = some e) :
    d.Within (d.offer k e).2 ∧ (d.offer k e).2.Within c ∧ (d.offer k e).2.get? k = some e := by
  have hfound : (d.offer k e).2.get? k = some e := by
    rw [get?_offer, if_pos rfl]
    cases hd : d.get? k with
    | none => rfl
    | some f =>
      obtain rfl : f = e := Option.some.inj ((h k f hd).symm.trans he)
      rw [Option.merge_some_some, better, ite_self]
  have hother : ∀ k', k ≠ k' → (d.offer k e).2.get? k' = d.get? k' := fun k' hk => by
    rw [get?_offer, if_neg hk]
  refine ⟨fun k' f hf => ?_, fun k' f hf => ?_, hfound⟩ <;> by_cases hk : k = k'
  · subst hk
    rw [hfound, ← he, h k f hf]
  · rw [hother k' hk, hf]
  · subst hk
    rw [he, ← hfound, hf]
  · exact h k' f (hother k' hk ▸ hf)

end Cache

namespace Store

/-- The row of each position is that of its entry in a cache. -/
structure Mirrors (s : Store) (c : Cache) : Prop where
  unique : s.Unique
  find? : ∀ k : Position, s.find? k.bytes = (c.get? k).map Row.ofEvaluation

variable {s : Store} {c : Cache}

section Saves

theorem grade_ofEvaluation_lt_iff {a b : Evaluation} :
    (Row.ofEvaluation a).grade < (Row.ofEvaluation b).grade ↔ a.strength < b.strength := by
  rw [Row.grade_ofEvaluation, Row.grade_ofEvaluation, Strength.grade_lt_grade_iff]

/-- Of two evaluations of one position the store keeps the row of the one that the cache keeps. -/
theorem better_ofEvaluation {a b : Evaluation} (h : a.position = b.position) :
    (Row.ofEvaluation a).better (.ofEvaluation b) = .ofEvaluation (better a b) := by
  by_cases hlt : a.strength < b.strength
  · rw [better_of_lt hlt, Row.better_of_lt (grade_ofEvaluation_lt_iff.2 hlt)]
    simp [Row.ofEvaluation, h]
  · rw [better_of_not_lt hlt, Row.better_of_not_lt (mt grade_ofEvaluation_lt_iff.1 hlt)]

theorem Mirrors.put (h : Mirrors s c) (hc : c.Keyed) (e : Evaluation) :
    Mirrors (s.put e.row).2 (c.offerAny e) where
  unique := unique_put h.unique _
  find? k := by
    have hkey : e.row.position = k.bytes ↔ e.position.canonical = k := by
      rw [position_row, Position.bytes_inj]
    rw [find?_put h.unique, Cache.get?_offerAny, h.find?]
    by_cases hk : e.position.canonical = k
    · rw [if_pos (hkey.2 hk), if_pos hk]
      cases hf : c.get? k with
      | none => rfl
      | some f =>
        have hpos : f.position = e.canonicalize.position := by
          rw [position_canonicalize, hk, (hc k f hf).2]
        rw [Option.map_some, Option.merge_some_some, row, better_ofEvaluation hpos]
        rfl
    · rw [if_neg (mt hkey.1 hk), if_neg hk]

/-- The store after saves mirrors the cache that is collected from the savable evaluations. -/
theorem mirrors_filled (es : List Evaluation) :
    Mirrors (filled es) (.ofList (es.filter isSavable)) := by
  induction es using List.reverseRecOn with
  | nil => exact ⟨List.nodup_nil, fun k => by rw [Cache.get?_ofList]; rfl⟩
  | append_singleton es e ih =>
    rw [filled_append_singleton, List.filter_append]
    by_cases he : e.isSavable = true
    · rw [save_of_savable he, List.filter_cons_of_pos he, Cache.ofList, List.foldl_append]
      exact ih.put (Cache.keyed_ofList _) e
    · rw [save_of_not_savable he, List.filter_cons_of_neg he, List.filter_nil, List.append_nil]
      exact ih

/-- What a save reports is decided by the entry that the cache has. -/
theorem Mirrors.save_fst (h : Mirrors s c) {e : Evaluation} (he : e.isSavable = true) :
    (s.save e).1 = match c.get? e.position.canonical with
      | none => .inserted
      | some f => if f.strength < e.strength then .upgraded else .kept := by
  have hrow : s.find? e.row.position = (c.get? e.position.canonical).map Row.ofEvaluation := by
    rw [← h.find?, position_row]
  rw [save_of_savable he]
  cases hf : c.get? e.position.canonical with
  | none =>
    rw [hf] at hrow
    rw [put_of_none hrow]
  | some f =>
    rw [hf] at hrow
    have hgrade : (Row.ofEvaluation f).grade < e.row.grade ↔ f.strength < e.strength := by
      rw [row, grade_ofEvaluation_lt_iff, strength_canonicalize]
    by_cases hlt : f.strength < e.strength
    · rw [put_of_lt hrow (hgrade.2 hlt)]
      simp only [if_pos hlt]
    · rw [put_of_not_lt h.unique hrow (mt hgrade.1 hlt)]
      simp only [if_neg hlt]

end Saves

section Lookups

theorem mem_rowsAt {keys : List Position} {r : Row} :
    r ∈ s.rowsAt keys ↔ ∃ k ∈ keys, s.find? k.bytes = some r := by
  simp [rowsAt, blobs, (List.mergeSort_perm _ _).mem_iff]

theorem mem_lookupKeys {ps : List Position} {k : Position} :
    k ∈ lookupKeys ps ↔ ∃ p ∈ ps, LookupRule.storageKey? p = some k := by
  rw [lookupKeys, Position.mem_ascending, List.mem_filterMap]

theorem addRows_cons {e : Evaluation} (he : e.Valid) (hcanonical : e.position.canonical = e.position)
    (d : Cache) (rs : List Row) :
    addRows d (.ofEvaluation e :: rs) = addRows (d.offer e.position e).2 rs := by
  have hadd : d.add e.position e = (.ok (d.offer e.position e).1, (d.offer e.position e).2) :=
    Cache.add_of_canonical d _ e (Position.isCanonical_iff.2 hcanonical) rfl
  rw [addRows, Row.evaluation_ofEvaluation he]
  simp only [bind, Except.bind, hadd]

/-- Rows of entries of a cache are added to a lesser one without a fault. -/
theorem addRows_within (hc : c.Keyed) (hvalid : ∀ k e, c.get? k = some e → e.Valid)
    {d : Cache} (hd : d.Within c) {rs : List Row}
    (hrs : ∀ r ∈ rs, ∃ k e, c.get? k = some e ∧ r = .ofEvaluation e) :
    ∃ d', addRows d rs = .ok d' ∧ d.Within d' ∧ d'.Within c ∧
      ∀ k e, c.get? k = some e → Row.ofEvaluation e ∈ rs → d'.get? k = some e := by
  induction rs generalizing d with
  | nil => exact ⟨d, rfl, .refl d, hd, by simp⟩
  | cons r rs ih =>
    obtain ⟨⟨k, e, he, rfl⟩, hrest⟩ := List.forall_mem_cons.1 hrs
    obtain ⟨hcanonical, rfl⟩ := hc k e he
    obtain ⟨hle, hoffer, hfound⟩ := hd.offer he
    obtain ⟨d', hadd, hle', hd', hall⟩ := ih hoffer hrest
    refine ⟨d', ?_, hle.trans hle', hd', ?_⟩
    · rw [addRows_cons (hvalid _ e he) hcanonical, hadd]
    · intro k' e' he' hmem
      rcases List.mem_cons.1 hmem with heq | hmem
      · have hpos : e'.position = e.position :=
          Position.bytes_inj.1 (congrArg Row.position heq)
        obtain ⟨-, rfl⟩ := hc k' e' he'
        rw [hpos] at he' ⊢
        rw [hle' _ e hfound, ← he, he']
      · exact hall k' e' he' hmem

/-- The batches of a lookup give the part of the cache that has their keys. -/
theorem addBatches_within (h : Mirrors s c) (hc : c.Keyed)
    (hvalid : ∀ k e, c.get? k = some e → e.Valid) {d : Cache} (hd : d.Within c)
    (bs : List (List Position)) :
    ∃ d', addBatches s d bs = .ok d' ∧ d.Within d' ∧ d'.Within c ∧
      ∀ k ∈ bs.flatten, d'.get? k = c.get? k := by
  induction bs generalizing d with
  | nil => exact ⟨d, rfl, .refl d, hd, by simp⟩
  | cons keys bs ih =>
    have hrows : ∀ r ∈ s.rowsAt keys, ∃ k e, c.get? k = some e ∧ r = .ofEvaluation e := by
      intro r hr
      obtain ⟨k, -, hk⟩ := mem_rowsAt.1 hr
      rw [h.find?, Option.map_eq_some_iff] at hk
      obtain ⟨e, he, rfl⟩ := hk
      exact ⟨k, e, he, rfl⟩
    obtain ⟨d₁, hadd, hle, hd₁, hall⟩ := addRows_within hc hvalid hd hrows
    obtain ⟨d', hadd', hle', hd', hall'⟩ := ih hd₁
    refine ⟨d', ?_, hle.trans hle', hd', ?_⟩
    · rw [addBatches, hadd]
      exact hadd'
    · intro k hk
      rcases List.mem_append.1 hk with hk | hk
      · cases he : c.get? k with
        | none =>
          rw [Option.eq_none_iff_forall_ne_some]
          intro e he'
          rw [hd' k e he'] at he
          cases he
        | some e =>
          have hrow : s.find? k.bytes = some (.ofEvaluation e) := by rw [h.find?, he]; rfl
          exact hle' k e (hall k e he (mem_rowsAt.2 ⟨k, hk, hrow⟩))
      · exact hall' k hk

/-- A lookup of a list finds for each of its positions what the cache finds. -/
theorem Mirrors.lookup (h : Mirrors s c) (hc : c.Keyed)
    (hvalid : ∀ k e, c.get? k = some e → e.Valid) (ps : List Position) :
    ∃ found, s.lookup ps = .ok found ∧ ∀ p ∈ ps, found.lookup p = c.lookup p := by
  have hempty : Cache.empty.Within c := fun k e he => by rw [Cache.get?_empty] at he; cases he
  obtain ⟨found, hadd, -, -, hall⟩ :=
    addBatches_within h hc hvalid hempty (batches queryBatch (lookupKeys ps))
  refine ⟨found, by rw [Store.lookup, hadd]; rfl, fun p hp => Cache.lookup_congr fun k hk => ?_⟩
  apply hall
  rw [flatten_batches (by decide)]
  exact mem_lookupKeys.2 ⟨p, hp, hk⟩

end Lookups

section Calls

inductive Call where
  | save (e : Evaluation)
  | saveAll (es : List Evaluation)

def Call.evaluations : Call → List Evaluation
  | save e => [e]
  | saveAll es => es

def Call.run (s : Store) : Call → Store
  | save e => (s.save e).2
  | saveAll es => (s.saveAll es).2

def afterCalls (calls : List Call) : Store := calls.foldl Call.run empty

/-- A cache to which the savable evaluations of calls were added, from nothing. -/
def cacheOfCalls (calls : List Call) : Cache :=
  ((calls.flatMap Call.evaluations).filter isSavable).foldl (fun c e => (c.addAny e).2) .empty

theorem afterCalls_eq_filled (calls : List Call) :
    afterCalls calls = filled (calls.flatMap Call.evaluations) := by
  have hrun : Call.run = fun s call => call.evaluations.foldl (fun s e => (s.save e).2) s := by
    funext s call
    cases call with
    | save e => rfl
    | saveAll es => exact s.saveAll_snd es
  rw [filled, saveAll_snd, afterCalls, List.foldl_flatMap, hrun]

theorem cacheOfCalls_eq_ofList (calls : List Call) :
    cacheOfCalls calls = .ofList ((calls.flatMap Call.evaluations).filter isSavable) := by
  have hadd : (fun (c : Cache) e => (c.addAny e).2) = Cache.offerAny := by
    funext c e
    rw [Cache.addAny_eq]
  rw [cacheOfCalls, hadd, Cache.ofList]

/-- Calls of saves and a cache to which the savable evaluations are added stay in step. Whatever list
is looked up, each of its positions is found as in the cache. And the next save, a call of its own or
part of one, inserts where the addition fills a free key, upgrades where it replaces an entry, and
keeps the row where it changes nothing. -/
theorem lookup_agrees_with_cache (calls : List Call)
    (hvalid : ∀ call ∈ calls, ∀ e ∈ call.evaluations, e.Valid) :
    (∀ ps, ∃ found, (afterCalls calls).lookup ps = .ok found ∧
      ∀ p ∈ ps, found.lookup p = (cacheOfCalls calls).lookup p) ∧
    ∀ e : Evaluation,
      (((afterCalls calls).save e).1 = .inserted ↔ e.isSavable = true ∧
        ((cacheOfCalls calls).addAny e).1 = .ok true ∧
        (cacheOfCalls calls).contains e.position.canonical = false) ∧
      (((afterCalls calls).save e).1 = .upgraded ↔ e.isSavable = true ∧
        ((cacheOfCalls calls).addAny e).1 = .ok true ∧
        (cacheOfCalls calls).contains e.position.canonical = true) ∧
      (((afterCalls calls).save e).1 = .kept ↔ e.isSavable = true ∧
        ((cacheOfCalls calls).addAny e).1 = .ok false) := by
  have hmirrors := mirrors_filled (calls.flatMap Call.evaluations)
  rw [afterCalls_eq_filled, cacheOfCalls_eq_ofList]
  refine ⟨?_, fun e => ?_⟩
  · apply hmirrors.lookup (Cache.keyed_ofList _)
    intro k e
    apply Cache.valid_of_get?_ofList
    intro o ho
    obtain ⟨call, hcall, ho⟩ := List.mem_flatMap.1 (List.mem_of_mem_filter ho)
    exact hvalid call hcall o ho
  · by_cases he : e.isSavable = true
    · rw [hmirrors.save_fst he, Cache.addAny_eq, Cache.offer_fst, Cache.contains]
      cases (Cache.ofList _).get? e.position.canonical with
      | none => simp [he]
      | some f =>
        by_cases hlt : f.strength < e.strength
        · simp [he, hlt, isBetterThan]
        · simp [he, hlt, isBetterThan]
    · rw [save_of_not_savable he]
      simp [he]

/-- The first position twice, in two orientations, and a position before a forced pass and after it;
the list that is looked up has images, a duplicate and a finished game. -/
theorem lookup_agrees_with_cache_pass_and_images :
    ∃ (calls : List Call) (found : Cache) (blocked : Position),
      (∀ call ∈ calls, ∀ e ∈ call.evaluations, e.Valid) ∧ blocked.isForcedPass = true ∧
      (afterCalls calls).lookup [.start, blocked, .rotate .start ⟨true, false, false⟩, .start,
        blocked.pass, ⟨0, 0, rfl⟩] = .ok found ∧
      found.lookup blocked = (cacheOfCalls calls).lookup blocked ∧
      ((found.lookup blocked).toOption.map Evaluation.score = some (-5)) ∧
      ((afterCalls calls).save ⟨.start, 20, 20, .p95, 1, []⟩).1 = .upgraded := by
  let blocked : Position := ⟨0x02, 0xfc, by decide⟩
  let calls : List Call := [.save ⟨.start, 16, 16, .p73, 0, []⟩,
    .saveAll [⟨blocked.pass, 16, 16, .p73, 5, []⟩,
      ⟨.rotate .start ⟨true, false, false⟩, 18, 18, .p73, 2, []⟩]]
  have hvalid : ∀ call ∈ calls, ∀ e ∈ call.evaluations, e.Valid := by
    simp only [calls, List.forall_mem_cons, Call.evaluations, List.not_mem_nil, false_imp_iff,
      implies_true, and_true, ← fault?_eq_none_iff]
    decide +kernel
  obtain ⟨hlookup, hsave⟩ := lookup_agrees_with_cache calls hvalid
  obtain ⟨found, hfound, hall⟩ := hlookup [.start, blocked, .rotate .start ⟨true, false, false⟩,
    .start, blocked.pass, ⟨0, 0, rfl⟩]
  have hblocked := hall blocked (by simp)
  refine ⟨calls, found, blocked, hvalid, by decide +kernel, hfound, hblocked, ?_,
    (hsave _).2.1.2 (by decide +kernel)⟩
  rw [hblocked]
  decide +kernel

end Calls

end Store
end OthelloBook
