import OthelloBook.Proofs.Store.Mirror
import OthelloBook.Service.Access

/-!
# What the server has of the keys

For keys, which are canonical and have a legal move, a lookup gives just the evaluations that are
kept, as they are kept. A cache that is collected from the answer has an entry for each key that has
a row, and no others.
-/
namespace OthelloBook

open Evaluation

namespace Cache

variable {c : Cache} {p : Position} {ps : List Position}

/-- A key is looked up as it is kept. -/
theorem toOption_lookup_of_canonical (c : Cache) (hp : p.canonical = p)
    (hmoves : p.hasMoves = true) : (c.lookup p).toOption = c.get? p := by
  rw [lookup_eq_resolve, LookupRule.resolve_of_stored (LookupRule.of_eq_stored_iff.2 hmoves),
    toOption_lookupStored, Position.symmetry_eq_identity hp, hp]
  exact (Option.map_congr fun e _ => e.rotate_identity).trans Option.map_id'

theorem contains_ofList {es : List Evaluation} :
    (ofList es).contains p = true ↔ ∃ e ∈ es, e.position.canonical = p := by
  rw [contains, get?_ofList, Option.isSome_map, Option.isSome_iff_ne_none, Ne,
    strongest?_eq_none_iff]
  simp [List.filter_eq_nil_iff]

theorem size_offerAny (c : Cache) (e : Evaluation) (h : c.contains e.position.canonical = false) :
    (c.offerAny e).size = c.size + 1 := by
  have hnone : c.get? e.position.canonical = none := by simpa [contains] using h
  have hnew : c.entries.contains e.position.canonical = false := by simpa [contains, get?] using h
  rw [offerAny, position_canonicalize, offer, hnone, size, Std.TreeMap.size_insert, hnew]
  rfl

/-- Evaluations of different positions all have an entry of their own. -/
theorem size_ofList {es : List Evaluation} (h : (es.map fun e => e.position.canonical).Nodup) :
    (ofList es).size = es.length := by
  induction es using List.reverseRecOn with
  | nil => rfl
  | append_singleton es e ih =>
    rw [List.map_append, List.map_singleton, List.nodup_append] at h
    have hnew : (ofList es).contains e.position.canonical = false := by
      rw [Bool.eq_false_iff, Ne, contains_ofList]
      rintro ⟨o, ho, hsame⟩
      exact h.2.2 _ (List.mem_map_of_mem ho) _ (by simp) hsame
    rw [ofList, List.foldl_append, ← ofList, List.foldl_cons, List.foldl_nil, size_offerAny _ _ hnew,
      ih h.1, List.length_append, List.length_singleton]

def restrict (c : Cache) (ps : List Position) : Cache := ofList (ps.filterMap c.get?)

theorem contains_restrict (hc : c.Keyed) (hp : p ∈ ps) :
    (c.restrict ps).contains p = c.contains p := by
  rw [Bool.eq_iff_iff, restrict, contains_ofList, contains, Option.isSome_iff_exists]
  constructor
  · rintro ⟨e, he, hpos⟩
    obtain ⟨k, -, hk⟩ := List.mem_filterMap.1 he
    obtain ⟨hcanonical, rfl⟩ := hc k e hk
    rw [← hpos, hcanonical]
    exact ⟨e, hk⟩
  · rintro ⟨e, he⟩
    obtain ⟨hcanonical, hpos⟩ := hc p e he
    exact ⟨e, List.mem_filterMap.2 ⟨p, hp, he⟩, by rw [hpos, hcanonical]⟩

theorem map_position_filterMap (hc : c.Keyed) (ps : List Position) :
    (ps.filterMap c.get?).map (fun e => e.position.canonical) = ps.filter c.contains := by
  induction ps with
  | nil => rfl
  | cons p ps ih =>
    cases hp : c.get? p with
    | none => simp [hp, contains, ih]
    | some e =>
      obtain ⟨hcanonical, hpos⟩ := hc p e hp
      simp [hp, contains, ih, hpos, hcanonical]

theorem size_restrict (hc : c.Keyed) (hps : ps.Nodup) :
    (c.restrict ps).size = (ps.filter c.contains).length := by
  rw [← map_position_filterMap hc, List.length_map, restrict, size_ofList]
  rw [map_position_filterMap hc]
  exact hps.filter _

end Cache

namespace Store

variable {s : Store} {p : Position} {es : List Evaluation}

def has (s : Store) (p : Position) : Bool := (s.find? p.bytes).isSome

theorem Mirrors.has_eq {c : Cache} (h : Mirrors s c) (p : Position) : s.has p = c.contains p := by
  rw [has, h.find?, Option.isSome_map, Cache.contains]

def entries (es : List Evaluation) : Cache := .ofList (es.filter isSavable)

theorem has_filled (es : List Evaluation) (p : Position) :
    (filled es).has p = (entries es).contains p := (mirrors_filled es).has_eq p

theorem has_filled_iff :
    (filled es).has p = true ↔ ∃ e ∈ es, e.isSavable = true ∧ e.position.canonical = p := by
  simp only [has_filled, entries, Cache.contains_ofList, List.mem_filter, and_assoc]

theorem has_filled_append (es fs : List Evaluation) (p : Position) :
    (filled (es ++ fs)).has p = ((filled es).has p || (filled fs).has p) := by
  rw [Bool.eq_iff_iff, Bool.or_eq_true]
  simp only [has_filled_iff, List.mem_append, or_and_right, exists_or]

theorem saveAll_filled (es fs : List Evaluation) :
    ((filled es).saveAll fs).2 = filled (es ++ fs) := by
  rw [filled, filled, saveAll_snd, saveAll_snd, saveAll_snd, List.foldl_append]

end Store

namespace Server

variable {s : Server} {es : List Evaluation} {ps : List Position}

def saved (s : Server) (es : List Evaluation) : Server :=
  { s with store := (s.store.saveAll es).2 }

@[simp] theorem saved_nil (s : Server) : s.saved [] = s := rfl

theorem saved_append (s : Server) (es fs : List Evaluation) :
    s.saved (es ++ fs) = (s.saved es).saved fs := by
  rw [saved, saved, saved, Store.saveAll_snd, Store.saveAll_snd, Store.saveAll_snd,
    List.foldl_append]

/-- A lookup of keys is answered with what is kept of them. -/
theorem lookup_keys (hs : s.store = .filled es) (hes : ∀ e ∈ es, e.Valid)
    (hlength : ps.length ≤ maxBatch)
    (hps : ∀ p ∈ ps, p.canonical = p ∧ p.hasMoves = true) :
    s.lookup ps = .ok (ps.filterMap (Store.entries es).get?) := by
  obtain ⟨found, hfound, hall⟩ :=
    (Store.mirrors_filled es).lookup (Cache.keyed_ofList _)
      (fun k e => Cache.valid_of_get?_ofList fun o ho => hes o (List.mem_of_mem_filter ho)) ps
  rw [lookup, if_neg (Nat.not_lt.2 hlength), hs, hfound]
  refine congrArg Except.ok (List.filterMap_congr fun p hp => ?_)
  obtain ⟨hcanonical, hmoves⟩ := hps p hp
  rw [hall p hp, Cache.toOption_lookup_of_canonical _ hcanonical hmoves]
  rfl

theorem takeEvaluations_of_length_le (s : Server) (hlength : es.length ≤ maxBatch) :
    s.takeEvaluations es = (.ok (s.store.saveAll es).1, s.saved es) := by
  rw [takeEvaluations, if_neg (Nat.not_lt.2 hlength)]
  rfl

end Server
end OthelloBook
