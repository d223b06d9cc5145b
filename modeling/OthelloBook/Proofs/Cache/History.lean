import OthelloBook.Proofs.Cache.Strongest
import OthelloBook.Proofs.Evaluation

/-!
# What a cache remembers

However a cache came to be, it is the one that is collected from all evaluations that were offered
to it, in the order in which they arrived. So the entry of a position is the first of the strongest
evaluations that were offered for any of its images.
-/
namespace OthelloBook.Cache

open Evaluation

inductive History where
  | empty
  | collect (es : List Evaluation)
  | add (h : History) (p : Position) (e : Evaluation)
  | addAny (h : History) (e : Evaluation)
  | update (h other : History)

namespace History

def cache : History → Cache
  | empty => .empty
  | collect es => .ofList es
  | add h p e => (h.cache.add p e).2
  | addAny h e => (h.cache.addAny e).2
  | update h other => h.cache.update other.cache

/-- The evaluations that were offered, in the order in which they arrived. An update offers the
entries of its argument, and an addition that is refused offers nothing. -/
def offers : History → List Evaluation
  | empty => []
  | collect es => es
  | add h p e => h.offers ++ if (h.cache.add p e).1.isOk then [e] else []
  | addAny h e => h.offers ++ [e]
  | update h other => h.offers ++ other.cache.toList

def evaluations : History → List Evaluation
  | empty => []
  | collect es => es
  | add h _ e => h.evaluations ++ [e]
  | addAny h e => h.evaluations ++ [e]
  | update h other => h.evaluations ++ other.evaluations

/-- What was offered for the images of a canonical position. -/
def offersFor (h : History) (k : Position) : List Evaluation :=
  h.offers.filter fun e => e.position.canonical = k

end History

section Offers

variable (c : Cache) (p k : Position) (e : Evaluation)

theorem get?_insert : (Cache.mk (c.entries.insert p e)).get? k = if p = k then some e else c.get? k := by
  simp [get?, Std.TreeMap.getElem?_insert]

/-- An offer changes the entry of its own position only. -/
theorem get?_offer :
    (c.offer p e).2.get? k = if p = k then (c.get? p).merge better (some e) else c.get? k := by
  rw [offer]
  cases hp : c.get? p with
  | none => simp [get?_insert]
  | some f =>
    by_cases hlt : f.strength < e.strength
    · simp [isBetterThan_iff.2 hlt, get?_insert, better_of_lt hlt]
    · by_cases hk : p = k
      · simp [isBetterThan, hlt, better_of_not_lt hlt, ← hk, hp]
      · simp [isBetterThan, hlt, hk]

theorem get?_offerAny :
    (c.offerAny e).get? k =
      if e.position.canonical = k then (c.get? k).merge better (some e.canonicalize)
      else c.get? k := by
  rw [offerAny, get?_offer, position_canonicalize]
  split
  · rename_i hk
    rw [hk]
  · rfl

theorem get?_foldl_offerAny (es : List Evaluation) :
    (es.foldl offerAny c).get? k = (c.get? k).merge better
      (strongest? ((es.filter fun e => e.position.canonical = k).map canonicalize)) := by
  induction es generalizing c with
  | nil => exact Option.merge_none_right.symm
  | cons e es ih =>
    rw [List.foldl_cons, ih, get?_offerAny]
    by_cases hk : e.position.canonical = k
    · rw [if_pos hk, List.filter_cons_of_pos (by simpa using hk), List.map_cons, strongest?_cons,
        merge_better_assoc]
    · rw [if_neg hk, List.filter_cons_of_neg (by simpa using hk)]

/-- Whether an offer is taken: there is no entry, or a weaker one. -/
theorem offer_fst : (c.offer p e).1 = (c.get? p).all e.isBetterThan := by
  rw [offer]
  cases c.get? p with
  | none => rfl
  | some f => cases hb : e.isBetterThan f <;> simp [hb]

/-- An offer says that the cache changed exactly when some entry is another one. -/
theorem offer_fst_iff : (c.offer p e).1 = true ↔ ∃ k, (c.offer p e).2.get? k ≠ c.get? k := by
  constructor
  · intro h
    refine ⟨p, ?_⟩
    rw [offer_fst] at h
    rw [get?_offer, if_pos rfl]
    cases hp : c.get? p with
    | none => simp
    | some f =>
      have hlt : f.strength < e.strength := by simpa [hp, isBetterThan_iff] using h
      rw [Option.merge_some_some, better_of_lt hlt, Ne, Option.some.injEq]
      rintro rfl
      exact irrefl _ hlt
  · rintro ⟨k, hk⟩
    cases h : (c.offer p e).1 with
    | true => rfl
    | false =>
      refine absurd ?_ hk
      rw [offer_fst] at h
      rw [get?_offer]
      cases hp : c.get? p with
      | none => simp [hp] at h
      | some f =>
        have hlt : ¬f.strength < e.strength := by
          rw [← isBetterThan_iff]
          simpa [hp] using h
        by_cases hpk : p = k
        · rw [if_pos hpk, Option.merge_some_some, better_of_not_lt hlt, ← hpk, hp]
        · rw [if_neg hpk]

end Offers

section Additions

variable (c : Cache) (p : Position) (e : Evaluation)

theorem isOk_add : (c.add p e).1.isOk = true ↔ p.isCanonical = true ∧ e.position = p := by
  rw [add]
  by_cases hp : p.isCanonical = true <;> by_cases he : e.position = p <;>
    simp [hp, he, Except.isOk, Except.toBool]

theorem add_of_canonical (hp : p.isCanonical = true) (he : e.position = p) :
    c.add p e = (.ok (c.offer p e).1, (c.offer p e).2) := by
  simp [add, hp, he]

/-- An addition that is refused leaves the cache as it is. -/
theorem add_of_not_isOk (h : ¬(c.add p e).1.isOk = true) : (c.add p e).2 = c := by
  rw [isOk_add] at h
  rw [add]
  by_cases hp : p.isCanonical = true <;> by_cases he : e.position = p <;> simp_all

/-- An addition that is not refused offers the evaluation, which is as it is kept. -/
theorem add_of_isOk (h : (c.add p e).1.isOk = true) : (c.add p e).2 = c.offerAny e := by
  obtain ⟨hp, rfl⟩ := (c.isOk_add p e).1 h
  rw [add_of_canonical c _ e hp rfl, offerAny,
    canonicalize_of_canonical (Position.isCanonical_iff.1 hp)]

/-- An evaluation of any image is never refused. -/
theorem addAny_eq : c.addAny e =
    (.ok (c.offer e.position.canonical e.canonicalize).1, c.offerAny e) := by
  rw [addAny, add_of_canonical, offerAny, position_canonicalize]
  · rw [position_canonicalize, Position.isCanonical_iff, Position.canonical_canonical]
  · rfl

theorem add_fst_iff : (c.add p e).1 = .ok true ↔ ∃ k, (c.add p e).2.get? k ≠ c.get? k := by
  by_cases h : (c.add p e).1.isOk = true
  · obtain ⟨hp, he⟩ := (c.isOk_add p e).1 h
    rw [add_of_canonical c p e hp he, Except.ok.injEq, offer_fst_iff]
  · rw [add_of_not_isOk c p e h]
    constructor
    · intro hok
      simp [hok, Except.isOk, Except.toBool] at h
    · rintro ⟨k, hk⟩
      exact absurd rfl hk

end Additions

section Collections

/-- Every key is canonical and the position of its evaluation. -/
def Keyed (c : Cache) : Prop :=
  ∀ k e, c.get? k = some e → k.canonical = k ∧ e.position = k

theorem strongest?_map_canonicalize (es : List Evaluation) :
    strongest? (es.map canonicalize) = (strongest? es).map canonicalize := by
  induction es with
  | nil => rfl
  | cons e es ih =>
    rw [List.map_cons, strongest?_cons, strongest?_cons, ih]
    cases strongest? es with
    | none => rfl
    | some f =>
      by_cases hlt : e.strength < f.strength
      · simp [better_of_lt hlt, better_of_lt (a := e.canonicalize) (b := f.canonicalize) (by simpa)]
      · simp [better_of_not_lt hlt,
          better_of_not_lt (a := e.canonicalize) (b := f.canonicalize) (by simpa)]

theorem get?_empty (k : Position) : Cache.empty.get? k = none := by
  simp [get?, Cache.empty]

/-- The entry of a position in a cache that is collected from a list. -/
theorem get?_ofList (es : List Evaluation) (k : Position) :
    (ofList es).get? k =
      (strongest? (es.filter fun e => e.position.canonical = k)).map canonicalize := by
  rw [ofList, get?_foldl_offerAny, get?_empty, Option.merge_none_left, strongest?_map_canonicalize]

theorem keyed_ofList (es : List Evaluation) : (ofList es).Keyed := by
  intro k e h
  rw [get?_ofList, Option.map_eq_some_iff] at h
  obtain ⟨o, ho, rfl⟩ := h
  have hmem := (firstStrongest_of_strongest? ho).mem
  obtain rfl : o.position.canonical = k := by simpa using (List.mem_filter.1 hmem).2
  exact ⟨o.position.canonical_canonical, position_canonicalize o⟩

theorem mem_toList {c : Cache} {e : Evaluation} : e ∈ c.toList ↔ ∃ k, c.get? k = some e := by
  simp only [toList, List.mem_map, Prod.exists, get?, Std.TreeMap.mem_toList_iff_getElem?_eq_some]
  exact ⟨fun ⟨k, _, h, he⟩ => ⟨k, he ▸ h⟩, fun ⟨k, h⟩ => ⟨k, e, h, rfl⟩⟩

/-- An update offers the entries of its argument. -/
theorem update_eq_foldl (c : Cache) {other : Cache} (h : other.Keyed) :
    c.update other = other.toList.foldl offerAny c := by
  rw [update, toList, List.foldl_map]
  refine List.foldl_ext _ _ _ fun c ⟨k, e⟩ hmem => ?_
  obtain ⟨hk, he⟩ := h k e (Std.TreeMap.mem_toList_iff_getElem?_eq_some.1 hmem)
  change (c.offer k e).2 = (c.offer e.canonicalize.position e.canonicalize).2
  rw [canonicalize_of_canonical (he ▸ hk), he]

/-- What is offered one after the other merges with what is there. -/
theorem get?_foldl_offerAny_ofList (c : Cache) (es : List Evaluation) (k : Position) :
    (es.foldl offerAny c).get? k = (c.get? k).merge better ((ofList es).get? k) := by
  rw [get?_foldl_offerAny, get?_ofList, strongest?_map_canonicalize]

/-- A cache is collected from its entries, in whatever order they come. -/
theorem get?_ofList_entries {c : Cache} (h : c.Keyed) {es : List Evaluation}
    (hes : ∀ e, e ∈ es ↔ e ∈ c.toList) (k : Position) : (ofList es).get? k = c.get? k := by
  -- Only the entry of `k` itself is for an image of `k`.
  have honly : ∀ e, e ∈ es.filter (fun e => e.position.canonical = k) ↔ c.get? k = some e := by
    intro e
    rw [List.mem_filter, hes, mem_toList, decide_eq_true_eq]
    constructor
    · rintro ⟨⟨k', he⟩, hk⟩
      obtain ⟨hk', hpos⟩ := h k' e he
      rw [← hk, hpos, hk', he]
    · intro he
      obtain ⟨hk, hpos⟩ := h k e he
      exact ⟨⟨k, he⟩, by rw [hpos, hk]⟩
  rw [get?_ofList]
  cases hs : strongest? (es.filter fun e => e.position.canonical = k) with
  | none =>
    rw [strongest?_eq_none_iff, List.eq_nil_iff_forall_not_mem] at hs
    cases hk : c.get? k with
    | none => rfl
    | some e => exact absurd ((honly e).2 hk) (hs e)
  | some e =>
    have he := (honly e).1 (firstStrongest_of_strongest? hs).mem
    obtain ⟨hk, hpos⟩ := h k e he
    rw [Option.map_some, canonicalize_of_canonical (hpos ▸ hk), he]

/-- An update merges the entries of each key, in whatever order it goes through them. -/
theorem get?_update (c : Cache) {other : Cache} (h : other.Keyed) {es : List Evaluation}
    (hes : es.Perm other.toList) (k : Position) :
    (c.update other).get? k = (es.foldl offerAny c).get? k := by
  rw [update_eq_foldl c h, get?_foldl_offerAny_ofList, get?_foldl_offerAny_ofList,
    get?_ofList_entries h (fun _ => Iff.rfl), get?_ofList_entries h fun _ => hes.mem_iff]

end Collections

/-- A cache is the one that is collected from what was offered to it. -/
theorem History.cache_eq_ofList (h : History) : h.cache = ofList h.offers := by
  induction h with
  | empty => rfl
  | collect es => rfl
  | add h p e ih =>
    rw [cache, offers]
    by_cases hok : (h.cache.add p e).1.isOk = true
    · rw [if_pos hok, add_of_isOk _ p e hok, ih, ofList, ofList, List.foldl_append]
      rfl
    · rw [if_neg hok, add_of_not_isOk _ p e hok, List.append_nil, ih]
  | addAny h e ih =>
    rw [cache, offers, addAny_eq, ih, ofList, ofList, List.foldl_append]
    rfl
  | update h other ih ih' =>
    rw [cache, offers, update_eq_foldl _ (ih' ▸ keyed_ofList _), ih, ofList, ofList,
      List.foldl_append]

theorem History.keyed (h : History) : h.cache.Keyed := by
  rw [cache_eq_ofList]
  exact keyed_ofList _

/-- The entry of a position is the first of the strongest that were offered for its images. -/
theorem History.get?_cache (h : History) (k : Position) :
    h.cache.get? k = (strongest? (h.offersFor k)).map canonicalize := by
  rw [cache_eq_ofList, get?_ofList, offersFor]

theorem valid_of_get?_ofList {es : List Evaluation} (hes : ∀ e ∈ es, e.Valid) {k : Position}
    {e : Evaluation} (h : (ofList es).get? k = some e) : e.Valid := by
  rw [get?_ofList, Option.map_eq_some_iff] at h
  obtain ⟨o, ho, rfl⟩ := h
  exact (hes o (List.mem_of_mem_filter (firstStrongest_of_strongest? ho).mem)).canonicalize

theorem History.valid_of_mem_offers (h : History) (hvalid : ∀ e ∈ h.evaluations, e.Valid) :
    ∀ e ∈ h.offers, e.Valid := by
  induction h with
  | empty => exact hvalid
  | collect es => exact hvalid
  | add h p e ih =>
    rw [evaluations, List.forall_mem_append] at hvalid
    rw [offers, List.forall_mem_append]
    refine ⟨ih hvalid.1, fun f hf => ?_⟩
    split at hf
    · exact hvalid.2 f hf
    · cases hf
  | addAny h e ih =>
    rw [evaluations, List.forall_mem_append] at hvalid
    rw [offers, List.forall_mem_append]
    exact ⟨ih hvalid.1, hvalid.2⟩
  | update h other ih ih' =>
    rw [evaluations, List.forall_mem_append] at hvalid
    rw [offers, List.forall_mem_append]
    refine ⟨ih hvalid.1, fun f hf => ?_⟩
    obtain ⟨k, hk⟩ := mem_toList.1 hf
    rw [other.cache_eq_ofList] at hk
    exact valid_of_get?_ofList (ih' hvalid.2) hk

/-- The entries of a cache that is made of valid evaluations are valid. -/
theorem History.valid_of_get?_cache (h : History) (hvalid : ∀ e ∈ h.evaluations, e.Valid)
    {k : Position} {e : Evaluation} (he : h.cache.get? k = some e) : e.Valid := by
  rw [h.cache_eq_ofList] at he
  exact valid_of_get?_ofList (h.valid_of_mem_offers hvalid) he

/-- Caches with the same entries differ at most in the shape of their trees. -/
theorem equiv_of_get? {c d : Cache} (h : ∀ k, c.get? k = d.get? k) : c.entries.Equiv d.entries :=
  Std.TreeMap.Equiv.of_forall_constGet?_eq h

/-- A cache is determined by what was offered to it: the entry of a position is the first of the
strongest evaluations that were offered for its images, expressed on the position, which is
canonical. An addition says that the cache changed exactly when it did, and one that is refused
changes nothing. So an update does what its entries would do in any order, a list may be collected in
two parts, and offers for one position may come in any order if their strengths are distinct. -/
theorem history_law :
    (∀ (h : History) (k : Position) (e : Evaluation),
      (h.cache.get? k = some e → k.isCanonical = true ∧ e.position = k) ∧
      (h.cache.get? k = some e ↔ ∃ o, FirstStrongest (h.offersFor k) o ∧ o.canonicalize = e)) ∧
    (∀ (c : Cache) (p : Position) (e : Evaluation),
      ((c.add p e).1.isOk = true ↔ p.isCanonical = true ∧ e.position = p) ∧
      ((c.add p e).1 = .ok true ↔ ∃ k, (c.add p e).2.get? k ≠ c.get? k) ∧
      ((c.add p e).1.isOk = false → (c.add p e).2 = c)) ∧
    (∀ (h other : History) (es : List Evaluation), es.Perm other.cache.toList →
      (h.update other).cache.entries.Equiv (es.foldl offerAny h.cache).entries) ∧
    (∀ xs ys : List Evaluation,
      ((ofList xs).update (ofList ys)).entries.Equiv (ofList (xs ++ ys)).entries) ∧
    ∀ h h' : History,
      (∀ k, h.offersFor k = h'.offersFor k ∨
        (h.offersFor k).Perm (h'.offersFor k) ∧ ((h.offersFor k).map strength).Nodup) →
      h.cache.entries.Equiv h'.cache.entries := by
  refine ⟨fun h k e => ⟨fun he => ?_, ?_⟩, fun c p e => ⟨c.isOk_add p e, c.add_fst_iff p e, ?_⟩,
    fun h other es hes => ?_, fun xs ys => ?_, fun h h' hoffers => ?_⟩
  · obtain ⟨hk, hpos⟩ := h.keyed k e he
    exact ⟨Position.isCanonical_iff.2 hk, hpos⟩
  · rw [h.get?_cache, Option.map_eq_some_iff]
    simp only [strongest?_eq_some_iff]
  · intro hok
    exact add_of_not_isOk c p e (by simp [hok])
  · exact equiv_of_get? (get?_update h.cache other.keyed hes)
  · refine equiv_of_get? fun k => ?_
    rw [get?_update _ (keyed_ofList ys) (.refl _), get?_foldl_offerAny_ofList,
      get?_ofList_entries (keyed_ofList ys) (fun _ => Iff.rfl), ← get?_foldl_offerAny_ofList,
      ofList, ofList, List.foldl_append]
  · refine equiv_of_get? fun k => ?_
    rw [h.get?_cache, h'.get?_cache]
    rcases hoffers k with hsame | ⟨hperm, hdistinct⟩
    · rw [hsame]
    · rw [strongest?_perm hperm hdistinct]

/-- Two evaluations of images of the first position, offered in either order, and one that is refused
under a position that is not its own. -/
theorem history_law_two_images :
    ∃ h h' : History, h.offers = [⟨.start, 16, 16, .p73, 0, []⟩,
        ⟨.rotate .start ⟨true, false, false⟩, 18, 18, .p95, 2, []⟩] ∧
      h'.offers = h.offers.reverse ∧ h.cache.entries.Equiv h'.cache.entries ∧
      (∃ e, h.cache.get? .start = some e ∧ e.level = 18 ∧ e.position = .start) ∧
      (Cache.empty.add .start ⟨.pass .start, 16, 16, .p73, 0, []⟩).2 = .empty ∧
      (h.update h').cache.entries.Equiv (h'.cache.toList.foldl offerAny h.cache).entries := by
  obtain ⟨hentries, hadd, hupdate, -, horder⟩ := history_law
  let weak : Evaluation := ⟨.start, 16, 16, .p73, 0, []⟩
  let strong : Evaluation := ⟨.rotate .start ⟨true, false, false⟩, 18, 18, .p95, 2, []⟩
  let h : History := (History.empty.addAny weak).addAny strong
  let h' : History := .collect [strong, weak]
  have hfirst : FirstStrongest (h.offersFor .start) strong :=
    ⟨[weak], [], by decide +kernel, by decide, by simp⟩
  have hfound := (hentries h .start strong.canonicalize).2.2 ⟨strong, hfirst, rfl⟩
  refine ⟨h, h', rfl, rfl, horder h h' fun k => .inr ⟨?_, ?_⟩,
    ⟨_, hfound, rfl, ((hentries h .start _).1 hfound).2⟩, (hadd _ _ _).2.2 ?_,
    hupdate h h' _ (.refl _)⟩
  · exact (List.Perm.swap strong weak []).filter _
  · exact List.Nodup.sublist (List.filter_sublist.map _) (by decide : (h.offers.map strength).Nodup)
  · decide +kernel

end OthelloBook.Cache
