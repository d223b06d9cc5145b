import OthelloBook.Proofs.Seed
import OthelloBook.Proofs.Seed.Requests

/-!
# How seeding fills the book

Seeding asks a server for the keys of each number of discs and has the missing ones evaluated. All
that it sends is saved under the key that it was missing, since keys are canonical and none is listed
twice. So a key that has no row at first has been searched and sent once when seeding ends, all keys
have rows, and there is nothing left to do.
-/
namespace OthelloBook

namespace Seed

section Layers

variable {τ : Type} {engine : Engine τ} {level : ℕ} {s : Server} {es fs : List Evaluation}
  {ps qs : List Position} {ls : List (ℕ × List Position)}

/-- Positions that the book keeps as they are, none of them twice. -/
structure Keys (ps : List Position) : Prop where
  distinct : ps.Nodup
  canonical : ∀ p ∈ ps, p.canonical = p
  savable : ∀ p ∈ ps, p.isSavable = true

namespace Keys

theorem of_append (h : Keys (ps ++ qs)) : Keys ps ∧ Keys qs ∧ ps.Disjoint qs := by
  obtain ⟨hps, hqs, hdisjoint⟩ := List.nodup_append'.1 h.distinct
  have hcanonical := List.forall_mem_append.1 h.canonical
  have hsavable := List.forall_mem_append.1 h.savable
  exact ⟨⟨hps, hcanonical.1, hsavable.1⟩, ⟨hqs, hcanonical.2, hsavable.2⟩, hdisjoint⟩

theorem filter (h : Keys ps) (f : Position → Bool) : Keys (ps.filter f) where
  distinct := h.distinct.filter f
  canonical p hp := h.canonical p (List.mem_of_mem_filter hp)
  savable p hp := h.savable p (List.mem_of_mem_filter hp)

theorem hasMoves (h : Keys ps) : ∀ p ∈ ps, p.hasMoves = true := by
  intro p hp
  have hsavable := h.savable p hp
  rw [Position.isSavable, Bool.and_eq_true] at hsavable
  exact hsavable.1

end Keys

def missing (store : Store) (ps : List Position) : List Position :=
  ps.filter fun p => !store.has p

/-- What is reported on a number of discs, by the rows that there are before. -/
def report (store : Store) (layer : ℕ × List Position) : Report where
  discs := layer.1
  positions := layer.2.length
  found := (layer.2.filter store.has).length
  computed := (missing store layer.2).length

theorem found_add_computed (store : Store) (layer : ℕ × List Position) :
    (report store layer).found + (report store layer).computed =
      (report store layer).positions :=
  (List.length_eq_length_filter_add _).symm

section Congruence

variable {store store' : Store}

theorem missing_congr (h : ∀ p ∈ ps, store.has p = store'.has p) :
    missing store ps = missing store' ps :=
  List.filter_congr fun p hp => congrArg not (h p hp)

theorem map_report_congr (h : ∀ p ∈ ls.flatMap Prod.snd, store.has p = store'.has p) :
    ls.map (report store) = ls.map (report store') := by
  refine List.map_congr_left fun layer hlayer => ?_
  have hps : ∀ p ∈ layer.2, store.has p = store'.has p :=
    fun p hp => h p (List.mem_flatMap.2 ⟨layer, hlayer, hp⟩)
  rw [report, report, missing_congr hps, List.filter_congr hps]

end Congruence

/-- After the lookups for some keys it is known which of them have rows. -/
theorem exists_lookUpAll_keys (fresh : Server → Identity) (now : Instant)
    (hs : s.store = .filled es) (hes : ∀ e ∈ es, e.Valid)
    (hps : Keys ps) (calls : List BookCall) :
    ∃ known lookups,
      lookUpAll (Server.access fresh now).recorded .empty (batches maxBatch ps) (s, calls) =
        (.ok known, (s, calls ++ lookups)) ∧
      (ps.filter fun p => !known.contains p) = missing s.store ps ∧
      known.size = (ps.filter s.store.has).length ∧ ∀ call ∈ lookups, IsLookup call := by
  have hflatten : (batches maxBatch ps).flatten = ps := flatten_batches (by decide) ps
  have hkeyed : (Store.entries es).Keyed := Cache.keyed_ofList _
  have hhas : s.store.has = (Store.entries es).contains := by
    funext p
    rw [hs, Store.has_filled]
  have hlength : ∀ b ∈ batches maxBatch ps, b.length ≤ maxBatch := fun b => length_le_of_mem_batches
  have hkeys : ∀ p ∈ (batches maxBatch ps).flatten, p.canonical = p ∧ p.hasMoves = true := by
    rw [hflatten]
    exact fun p hp => ⟨hps.canonical p hp, hps.hasMoves p hp⟩
  obtain ⟨lookups, hlookups, hall⟩ := exists_lookUpAll fresh now hs hes hlength hkeys .empty calls
  rw [hflatten] at hlookups
  refine ⟨(Store.entries es).restrict ps, lookups, hlookups, List.filter_congr fun p hp => ?_, ?_,
    hall⟩
  · rw [Cache.contains_restrict hkeyed hp, hhas]
  · rw [Cache.size_restrict hkeyed hps.distinct, hhas]

/-- Saves of what was searched for some keys add rows to these keys only. -/
theorem has_saved_of_searches {en en' : τ} (h : Searches engine level ps fs en en')
    (hlevel : Level.minimum ≤ level) (hps : Keys ps) (hs : s.store = .filled es) (q : Position) :
    (s.saved fs).store.has q = true ↔ s.store.has q = true ∨ q ∈ ps := by
  rw [Server.saved, hs, Store.saveAll_filled, Store.has_filled_append, Bool.or_eq_true]
  refine or_congr Iff.rfl ?_
  rw [Store.has_filled_iff]
  constructor
  · rintro ⟨e, he, -, rfl⟩
    have hmem : e.position ∈ ps := h.map_position ▸ List.mem_map_of_mem he
    rwa [hps.canonical _ hmem]
  · intro hq
    obtain ⟨e, he, rfl⟩ := List.mem_map.1 (h.map_position.symm ▸ hq)
    refine ⟨e, he, ?_, hps.canonical _ hq⟩
    rw [Evaluation.isSavable, (h.valid_and_level e he).2, hps.savable _ hq]
    simpa using hlevel

/-- What is missing is filled in for one number of discs after the other. The keys of the later ones
are not among those that are filled in before, and so the same of them are missing as at first. -/
theorem exists_fillIn (fresh : Server → Identity) (now : Instant) (h : engine.Answers level)
    (hlevel : Level.minimum ≤ level)
    (hls : Keys (ls.flatMap Prod.snd)) (hs : s.store = .filled es) (hes : ∀ e ∈ es, e.Valid)
    (calls : List BookCall) (en : τ) (searched : List Position) :
    ∃ fs en' more,
      fillIn (Server.access fresh now).recorded engine.recorded level ls (s, calls) (en, searched) =
        (.ok (ls.map (report s.store)), (s.saved fs, calls ++ more),
          (en', (missing s.store (ls.flatMap Prod.snd)).reverse ++ searched)) ∧
      Searches engine level (missing s.store (ls.flatMap Prod.snd)) fs en en' ∧
      (∀ call ∈ more, IsLookup call ∨ IsDelivery call) ∧ more.flatMap BookCall.sent = fs := by
  induction ls generalizing s es calls en searched with
  | nil => exact ⟨[], en, [], by simp [fillIn, missing], .nil en, by simp, rfl⟩
  | cons layer ls ih =>
    obtain ⟨discs, ps⟩ := layer
    rw [List.flatMap_cons] at hls
    obtain ⟨hps, hls, hdisjoint⟩ := hls.of_append
    have hnew : Keys (missing s.store ps) := hps.filter _
    obtain ⟨known, lookups, hlookups, hmissing, hsize, hlookup⟩ :=
      exists_lookUpAll_keys fresh now hs hes hps calls
    have hflatten : (batches sendBatch (missing s.store ps)).flatten = missing s.store ps :=
      flatten_batches (by decide) _
    have hlength : ∀ b ∈ batches sendBatch (missing s.store ps),
        1 ≤ b.length ∧ b.length ≤ sendBatch :=
      fun b hb => ⟨length_pos_of_mem_batches hb, length_le_of_mem_batches hb⟩
    obtain ⟨gs, en₁, deliveries, hsupply, hgs, hdelivery, hsent⟩ := exists_supply fresh now h hlength
      (hflatten.symm ▸ hnew.hasMoves) s (calls ++ lookups) en searched
    rw [hflatten] at hsupply hgs
    have hsame : ∀ p ∈ ls.flatMap Prod.snd, (s.saved gs).store.has p = s.store.has p := by
      intro p hp
      rw [Bool.eq_iff_iff, has_saved_of_searches hgs hlevel hnew hs, or_iff_left]
      exact fun hmem => hdisjoint (List.mem_of_mem_filter hmem) hp
    have hs₁ : (s.saved gs).store = .filled (es ++ gs) := by
      rw [Server.saved, hs, Store.saveAll_filled]
    have hvalid : ∀ e ∈ es ++ gs, e.Valid :=
      List.forall_mem_append.2 ⟨hes, fun e he => (hgs.valid_and_level e he).1⟩
    obtain ⟨fs, en₂, more, hrest, hfs, hall, hsent'⟩ := ih hls hs₁ hvalid
      (calls ++ lookups ++ deliveries) en₁ ((missing s.store ps).reverse ++ searched)
    have hsplit : missing s.store (((discs, ps) :: ls).flatMap Prod.snd) =
        missing s.store ps ++ missing s.store (ls.flatMap Prod.snd) := List.filter_append ..
    rw [map_report_congr hsame, missing_congr hsame] at hrest
    rw [missing_congr hsame] at hfs
    refine ⟨gs ++ fs, en₂, lookups ++ deliveries ++ more, ?_, hsplit ▸ hgs.append hfs, ?_, ?_⟩
    · rw [fillIn, hlookups]
      dsimp only
      rw [hmissing, hsupply]
      dsimp only
      rw [hrest, hsize, hsplit, s.saved_append]
      simp [report, Except.map]
    · simp only [List.forall_mem_append]
      exact ⟨⟨fun call hc => .inl (hlookup call hc), fun call hc => .inr (hdelivery call hc)⟩, hall⟩
    · have hnone : lookups.flatMap BookCall.sent = [] :=
        List.flatMap_eq_nil_iff.2 fun call hc => sent_of_isLookup (hlookup call hc)
      rw [List.flatMap_append, List.flatMap_append, hnone, hsent, hsent']
      rfl

theorem nodup_layer (n : ℕ) : (layer n).Nodup := by
  refine (pairwise_layer n).imp fun {p q} hlt heq => ?_
  subst heq
  have hself : compare p p = .eq := Std.ReflCmp.compare_self
  exact Ordering.noConfusion (hlt.symm.trans hself)

/-- The keys of all numbers of discs. -/
theorem keys_layers (max : ℕ) : Keys ((layers max).flatMap Prod.snd) := by
  have hlayers : (layers max).flatMap Prod.snd =
      (List.range (min max Level.maxDiscs + 1 - Level.minDiscs)).flatMap layer := by
    rw [layers, layersFrom_eq_map, List.flatMap_map]
    rfl
  have hmem : ∀ p ∈ (layers max).flatMap Prod.snd,
      p.canonical = p ∧ p.hasMoves = true ∧ p.discCount ≤ Level.maxDiscs := by
    intro p hp
    rw [hlayers] at hp
    obtain ⟨n, hn, hp⟩ := List.mem_flatMap.1 hp
    obtain ⟨q, -, hdiscs, hmoves, rfl⟩ := exists_of_mem_layer hp
    refine ⟨q.canonical_canonical, by rw [Position.hasMoves_canonical, hmoves], ?_⟩
    rw [List.mem_range] at hn
    rw [Position.discCount_canonical, hdiscs]
    omega
  refine ⟨?_, fun p hp => (hmem p hp).1, fun p hp => ?_⟩
  · rw [hlayers, List.nodup_flatMap]
    refine ⟨fun n _ => nodup_layer n, ?_⟩
    · refine List.nodup_range.imp fun {m n} hmn p hp hp' => hmn ?_
      obtain ⟨q, -, hdiscs, -, rfl⟩ := exists_of_mem_layer hp
      obtain ⟨r, -, hdiscs', -, hcanonical⟩ := exists_of_mem_layer hp'
      have hsame : r.discCount = q.discCount := by
        rw [← Position.discCount_canonical r, hcanonical, Position.discCount_canonical]
      omega
  · rw [Position.isSavable, (hmem p hp).2.1, Bool.true_and, decide_eq_true_eq]
    exact (hmem p hp).2.2

theorem missing_eq_nil {store : Store} (h : ∀ p ∈ ps, store.has p = true) :
    missing store ps = [] := by
  rw [missing, List.filter_eq_nil_iff]
  intro p hp
  simp [h p hp]

theorem isLookup_of_sent_eq_nil {calls : List BookCall}
    (h : ∀ call ∈ calls, IsLookup call ∨ IsDelivery call)
    (hsent : calls.flatMap BookCall.sent = []) : ∀ call ∈ calls, IsLookup call := by
  intro call hcall
  refine (h call hcall).resolve_right fun hdelivery => ?_
  exact sent_ne_nil_of_isDelivery hdelivery (List.flatMap_eq_nil_iff.1 hsent call hcall)

/-- A server has saved valid evaluations, and an engine answers at a level that the book keeps. Then
seeding makes permitted requests only, all of which are answered. It searches each key that had no
row once, in the order of the keys, and sends what it finds, each evaluation once and in this order.
What it reports adds up for each number of discs. After it all keys have rows, so that seeding again,
at any time and with the engine in any state, finds them all, makes lookups only and searches
nothing. -/
theorem seeding_fills_the_book (h : engine.Answers level) (hlevel : 16 ≤ level) (max : ℕ)
    (hes : ∀ e ∈ es, e.Valid) (hs : s.store = .filled es) (fresh : Server → Identity)
    (now : Instant) (en : τ) :
    let keys := (layers max).flatMap Prod.snd
    let reports := (layers max).map (report s.store)
    ∃ fs en' calls,
      run (Server.access fresh now) engine max level s en = (.ok reports, s.saved fs, en') ∧
      run (Server.access fresh now).recorded engine.recorded max level (s, []) (en, []) =
        (.ok reports, (s.saved fs, calls), (en', (missing s.store keys).reverse)) ∧
      (∀ call ∈ calls, IsLookup call ∨ IsDelivery call) ∧
      calls.flatMap BookCall.sent = fs ∧
      evaluateAll engine level (missing s.store keys) en = (.ok fs, en') ∧
      fs.map Evaluation.position = missing s.store keys ∧
      (missing s.store keys).Nodup ∧
      (∀ r ∈ reports, r.found + r.computed = r.positions) ∧
      (∀ p ∈ keys, (s.saved fs).store.has p = true) ∧
      ∀ later en₂, ∃ reports' lookups,
        run (Server.access fresh later).recorded engine.recorded max level (s.saved fs, [])
            (en₂, []) = (.ok reports', (s.saved fs, lookups), (en₂, [])) ∧
        (∀ r ∈ reports', r.computed = 0 ∧ r.found = r.positions) ∧
        ∀ call ∈ lookups, IsLookup call := by
  intro keys reports
  have hkeys : Keys keys := keys_layers max
  obtain ⟨fs, en', calls, hrun, hfs, hcalls, hsent⟩ :=
    exists_fillIn fresh now h hlevel hkeys hs hes [] en []
  rw [List.append_nil, List.nil_append] at hrun
  have hplain : run (Server.access fresh now) engine max level s en =
      (.ok reports, s.saved fs, en') := by
    rw [run, fillIn_recorded (layers max) (s, []) (en, []), hrun]
  have hall : ∀ p ∈ keys, (s.saved fs).store.has p = true := by
    intro p hp
    rw [has_saved_of_searches hfs hlevel (hkeys.filter _) hs]
    cases hrow : s.store.has p with
    | true => exact .inl rfl
    | false => exact .inr (List.mem_filter.2 ⟨hp, by rw [hrow]; rfl⟩)
  refine ⟨fs, en', calls, hplain, hrun, hcalls, hsent, hfs.evaluateAll_eq, hfs.map_position,
    hkeys.distinct.filter _, ?_, hall, fun later en₂ => ?_⟩
  · intro r hr
    obtain ⟨layer, -, rfl⟩ := List.mem_map.1 hr
    exact found_add_computed s.store layer
  · have hs' : (s.saved fs).store = .filled (es ++ fs) := by
      rw [Server.saved, hs, Store.saveAll_filled]
    have hes' : ∀ e ∈ es ++ fs, e.Valid :=
      List.forall_mem_append.2 ⟨hes, fun e he => (hfs.valid_and_level e he).1⟩
    obtain ⟨gs, en₃, lookups, hagain, hgs, hcalls', hsent'⟩ :=
      exists_fillIn fresh later h hlevel hkeys hs' hes' [] en₂ []
    -- Nothing is missing, and so nothing is searched or sent.
    have hnone : missing (s.saved fs).store keys = [] := missing_eq_nil hall
    rw [hnone] at hagain hgs
    cases hgs
    refine ⟨(layers max).map (report (s.saved fs).store), lookups, hagain, fun r hr => ?_,
      isLookup_of_sent_eq_nil hcalls' hsent'⟩
    obtain ⟨layer, hlayer, rfl⟩ := List.mem_map.1 hr
    have hcomputed : (report (s.saved fs).store layer).computed = 0 := by
      rw [report, missing_eq_nil fun p hp => hall p (List.mem_flatMap.2 ⟨layer, hlayer, hp⟩)]
      rfl
    have hsum := found_add_computed (s.saved fs).store layer
    rw [hcomputed] at hsum
    exact ⟨hcomputed, hsum⟩

/-- The first position has a row, and the four keys of five and six discs have none. -/
theorem seeding_fills_the_book_up_to_six_discs :
    ∃ (engine : Engine (List (Position × ℕ))) (s : Server) (fresh : Server → Identity)
      (fs : List Evaluation) (en' : List (Position × ℕ)),
      engine.Answers 16 ∧ s.store.size = 1 ∧ fs.length = 4 ∧
      run (Server.access fresh 0) engine 6 16 s [] =
        (.ok [⟨4, 1, 1, 0⟩, ⟨5, 1, 0, 1⟩, ⟨6, 3, 0, 3⟩], s.saved fs, en') ∧
      (∀ p ∈ (layers 6).flatMap Prod.snd, (s.saved fs).store.has p = true) ∧
      ∃ reports' lookups,
        run (Server.access fresh 1).recorded engine.recorded 6 16 (s.saved fs, []) (en', []) =
          (.ok reports', (s.saved fs, lookups), (en', [])) ∧
        ∀ r ∈ reports', r.computed = 0 ∧ r.found = r.positions := by
  let engine : Engine (List (Position × ℕ)) := Script.engine { moves := 0 }
  let e : Evaluation := ⟨.start, 16, 16, .p73, 0, []⟩
  let s : Server := ⟨⟨"token", "user", "password"⟩, .start {}, .filled [e]⟩
  let fresh : Server → Identity := fun _ => ⟨1⟩
  have hengine : engine.Answers 16 := by
    intro p en _
    have hvalid : Evaluation.Valid ⟨p, 16, 16, .p73, 0, []⟩ := by
      constructor <;> first | rfl | simp
    refine ⟨⟨p, 16, 16, .p73, 0, []⟩, (p, 16) :: en, ?_, hvalid, rfl, rfl⟩
    have hrow : Engine.ofRow p 16 ⟨16, 73, 0, []⟩ = .ok ⟨p, 16, 16, .p73, 0, []⟩ := by
      rw [Engine.ofRow, mapError_eq_ok_iff]
      exact (Evaluation.validate_eq_ok_iff _).2 ⟨hvalid, rfl⟩
    exact congrArg (·, (p, 16) :: en) hrow
  have he : ∀ a ∈ [e], a.Valid := by
    simp only [← Evaluation.fault?_eq_none_iff]
    decide +kernel
  obtain ⟨fs, en', -, hrun, -, -, -, -, hposition, -, -, hall, hagain⟩ :=
    seeding_fills_the_book hengine (le_refl 16) 6 he (s := s) rfl fresh 0 []
  obtain ⟨reports', lookups, hsecond, hcomputed, -⟩ := hagain 1 en'
  have hreports : (layers 6).map (report s.store) =
      [⟨4, 1, 1, 0⟩, ⟨5, 1, 0, 1⟩, ⟨6, 3, 0, 3⟩] := by decide +kernel
  have hmissing : (missing s.store ((layers 6).flatMap Prod.snd)).length = 4 := by decide +kernel
  have hlength : fs.length = 4 := by rw [← hmissing, ← hposition, List.length_map]
  rw [hreports] at hrun
  exact ⟨engine, s, fresh, fs, en', hengine, by decide +kernel, hlength, hrun, hall, reports',
    lookups, hsecond, hcomputed⟩

end Layers

end Seed
end OthelloBook
