import OthelloBook.Proofs.Engine.Evaluate
import OthelloBook.Proofs.Service.Lookups
import OthelloBook.Worker.Access
import OthelloBook.Seed

/-!
# What seeding asks

Seeding looks keys up in batches, searches what is missing and sends the evaluations in batches. It
does the same whether its requests and searches are recorded or not. A server answers each batch of
keys with what it keeps of them and saves each batch of evaluations, and an engine that answers at a
level has each position with a legal move searched itself.
-/
namespace OthelloBook

/-- The engine answers each search at a level with a valid evaluation at this level. -/
def Engine.Answers {τ : Type} (engine : Engine τ) (level : ℕ) : Prop :=
  ∀ (p : Position) (en : τ), p.hasMoves = true →
    ∃ e en', engine.search p level en = (.ok e, en') ∧ e.Valid ∧ e.position = p ∧ e.level = level

namespace Seed

/-- A lookup of a permitted number of positions that is answered. -/
def IsLookup : BookCall → Prop
  | .lookup ps answer => ps.length ≤ maxBatch ∧ answer.isOk = true
  | _ => False

/-- A delivery of one batch of evaluations that is answered. -/
def IsDelivery : BookCall → Prop
  | .evaluations es answer => 1 ≤ es.length ∧ es.length ≤ sendBatch ∧ answer.isOk = true
  | _ => False

theorem sent_of_isLookup {call : BookCall} (h : IsLookup call) : call.sent = [] := by
  cases call <;> simp_all [IsLookup, BookCall.sent]

theorem sent_ne_nil_of_isDelivery {call : BookCall} (h : IsDelivery call) : call.sent ≠ [] := by
  cases call <;> simp_all [IsDelivery, BookCall.sent, List.length_pos_iff, Nat.succ_le_iff]

section Records

variable {σ τ : Type} {book : BookAccess σ} {engine : Engine τ} {level : ℕ}

/-! Seeding does the same whether its requests and searches are recorded or not. -/

theorem lookUpAll_recorded (known : Cache) (bs : List (List Position)) (st : σ × List BookCall) :
    lookUpAll book known bs st.1 =
      ((lookUpAll book.recorded known bs st).1, (lookUpAll book.recorded known bs st).2.1) := by
  induction bs generalizing known st with
  | nil => rfl
  | cons ps bs ih =>
    simp only [lookUpAll, BookAccess.recorded, BookCall.note]
    rcases book.lookup ps st.1 with ⟨_ | es, st'⟩
    · rfl
    · dsimp only
      cases remember known es with
      | error e => rfl
      | ok known => exact ih known (st', st.2 ++ [.lookup ps (.ok es)])

theorem evaluate_recorded (p : Position) (en : τ × List Position) :
    engine.evaluate p level en.1 =
      ((engine.recorded.evaluate p level en).1, (engine.recorded.evaluate p level en).2.1) := by
  obtain ⟨searched, hrecorded, -⟩ := engine.exists_searched p level en.1 en.2
  rw [hrecorded]

theorem evaluateAll_recorded (ps : List Position) (en : τ × List Position) :
    evaluateAll engine level ps en.1 =
      ((evaluateAll engine.recorded level ps en).1,
        (evaluateAll engine.recorded level ps en).2.1) := by
  induction ps generalizing en with
  | nil => rfl
  | cons p ps ih =>
    simp only [evaluateAll, evaluate_recorded p en]
    rcases engine.recorded.evaluate p level en with ⟨_ | e, en'⟩
    · rfl
    · simp only [ih en']

theorem supply_recorded (bs : List (List Position)) (st : σ × List BookCall)
    (en : τ × List Position) :
    supply book engine level bs st.1 en.1 =
      ((supply book.recorded engine.recorded level bs st en).1,
        (supply book.recorded engine.recorded level bs st en).2.1.1,
        (supply book.recorded engine.recorded level bs st en).2.2.1) := by
  induction bs generalizing st en with
  | nil => rfl
  | cons ps bs ih =>
    simp only [supply, evaluateAll_recorded ps en, BookAccess.recorded, BookCall.note]
    rcases evaluateAll engine.recorded level ps en with ⟨_ | es, en'⟩
    · rfl
    · dsimp only
      rcases book.sendEvaluations es st.1 with ⟨_ | n, st'⟩
      · rfl
      · exact ih (st', st.2 ++ [.evaluations es (.ok n)]) en'

theorem fillIn_recorded (ls : List (ℕ × List Position)) (st : σ × List BookCall)
    (en : τ × List Position) :
    fillIn book engine level ls st.1 en.1 =
      ((fillIn book.recorded engine.recorded level ls st en).1,
        (fillIn book.recorded engine.recorded level ls st en).2.1.1,
        (fillIn book.recorded engine.recorded level ls st en).2.2.1) := by
  induction ls generalizing st en with
  | nil => rfl
  | cons layer ls ih =>
    simp only [fillIn, lookUpAll_recorded .empty _ st]
    rcases lookUpAll book.recorded .empty (batches maxBatch layer.2) st with ⟨_ | known, st₁⟩
    · rfl
    · simp only [supply_recorded _ st₁ en]
      rcases supply book.recorded engine.recorded level _ st₁ en with ⟨_ | _, st₂, en₂⟩
      · rfl
      · simp only [ih st₂ en₂]

end Records

section Searches

variable {τ : Type} {engine : Engine τ} {level : ℕ} {ps qs : List Position}
  {es fs : List Evaluation} {en en₁ en₂ : τ}

/-- Searches of positions with a legal move, each answered with a valid evaluation at the level. -/
inductive Searches (engine : Engine τ) (level : ℕ) :
    List Position → List Evaluation → τ → τ → Prop
  | nil (en : τ) : Searches engine level [] [] en en
  | cons {p : Position} {ps : List Position} {e : Evaluation} {es : List Evaluation}
      {en en₁ en₂ : τ} (hmoves : p.hasMoves = true)
      (hsearch : engine.search p level en = (.ok e, en₁)) (hvalid : e.Valid)
      (hposition : e.position = p) (hlevel : e.level = level)
      (rest : Searches engine level ps es en₁ en₂) :
      Searches engine level (p :: ps) (e :: es) en en₂

theorem exists_searches (h : engine.Answers level)
    (hps : ∀ p ∈ ps, p.hasMoves = true) (en : τ) :
    ∃ es en', Searches engine level ps es en en' := by
  induction ps generalizing en with
  | nil => exact ⟨[], en, .nil en⟩
  | cons p ps ih =>
    obtain ⟨hp, hps⟩ := List.forall_mem_cons.1 hps
    obtain ⟨e, en₁, hsearch, hvalid, hposition, hlevel⟩ := h p en hp
    obtain ⟨es, en₂, hrest⟩ := ih hps en₁
    exact ⟨e :: es, en₂, .cons hp hsearch hvalid hposition hlevel hrest⟩

namespace Searches

theorem append (h : Searches engine level ps es en en₁)
    (h' : Searches engine level qs fs en₁ en₂) :
    Searches engine level (ps ++ qs) (es ++ fs) en en₂ := by
  induction h with
  | nil => exact h'
  | cons hmoves hsearch hvalid hposition hlevel _ ih =>
    exact .cons hmoves hsearch hvalid hposition hlevel (ih h')

theorem map_position (h : Searches engine level ps es en en₁) : es.map Evaluation.position = ps := by
  induction h with
  | nil => rfl
  | cons _ _ _ hposition _ _ ih => rw [List.map_cons, hposition, ih]

theorem valid_and_level (h : Searches engine level ps es en en₁) :
    ∀ e ∈ es, e.Valid ∧ e.level = level := by
  induction h with
  | nil => simp
  | cons _ _ hvalid _ hlevel _ ih => exact List.forall_mem_cons.2 ⟨⟨hvalid, hlevel⟩, ih⟩

/-- A position with a legal move is evaluated by a search of itself. -/
theorem evaluateAll_recorded_eq (h : Searches engine level ps es en en₁)
    (searched : List Position) :
    evaluateAll engine.recorded level ps (en, searched) =
      (.ok es, (en₁, ps.reverse ++ searched)) := by
  induction h generalizing searched with
  | nil => rfl
  | @cons p ps e es en en₁ en₂ hmoves hsearch _ _ _ _ ih =>
    have hrule : LookupRule.of p = .stored := LookupRule.of_eq_stored_iff.2 hmoves
    have hevaluate : engine.recorded.evaluate p level (en, searched) =
        (.ok e, (en₁, p :: searched)) := by
      simp only [Engine.evaluate, hrule, Engine.recorded, hsearch]
    rw [evaluateAll, hevaluate]
    dsimp only
    rw [ih, List.reverse_cons, List.append_assoc]
    rfl

theorem evaluateAll_eq (h : Searches engine level ps es en en₁) :
    evaluateAll engine level ps en = (.ok es, en₁) := by
  rw [evaluateAll_recorded ps (en, []), h.evaluateAll_recorded_eq]

end Searches

end Searches

section Requests

variable {τ : Type} {engine : Engine τ} {level : ℕ} {s : Server} {es : List Evaluation}

theorem remember_eq (known : Cache) (es : List Evaluation) :
    remember known es = .ok (es.foldl Cache.offerAny known) := by
  induction es generalizing known with
  | nil => rfl
  | cons e es ih =>
    rw [remember, Cache.addAny_eq]
    exact ih _

/-- Keys are looked up in batches, and what the server keeps of them is remembered. -/
theorem exists_lookUpAll (fresh : Server → Identity) (now : Instant)
    (hs : s.store = .filled es) (hes : ∀ e ∈ es, e.Valid)
    {bs : List (List Position)} (hbs : ∀ b ∈ bs, b.length ≤ maxBatch)
    (hkeys : ∀ p ∈ bs.flatten, p.canonical = p ∧ p.hasMoves = true)
    (known : Cache) (calls : List BookCall) :
    ∃ lookups, lookUpAll (Server.access fresh now).recorded known bs (s, calls) =
        (.ok ((bs.flatten.filterMap (Store.entries es).get?).foldl Cache.offerAny known),
          (s, calls ++ lookups)) ∧ ∀ call ∈ lookups, IsLookup call := by
  induction bs generalizing known calls with
  | nil => exact ⟨[], by simp [lookUpAll], by simp⟩
  | cons b bs ih =>
    obtain ⟨hb, hbs⟩ := List.forall_mem_cons.1 hbs
    rw [List.flatten_cons, List.forall_mem_append] at hkeys
    let found := b.filterMap (Store.entries es).get?
    have hlookup : (Server.access fresh now).recorded.lookup b (s, calls) =
        (.ok found, (s, calls ++ [.lookup b (.ok found)])) := by
      simp only [BookAccess.recorded, BookCall.note, Server.access,
        Server.lookup_keys hs hes hb hkeys.1]
      rfl
    obtain ⟨lookups, hrest, hall⟩ := ih hbs hkeys.2 (found.foldl Cache.offerAny known)
      (calls ++ [.lookup b (.ok found)])
    refine ⟨.lookup b (.ok found) :: lookups, ?_, List.forall_mem_cons.2 ⟨⟨hb, rfl⟩, hall⟩⟩
    rw [lookUpAll, hlookup]
    dsimp only
    rw [remember_eq]
    dsimp only
    rw [hrest, List.flatten_cons, List.filterMap_append, List.foldl_append, List.append_assoc]
    rfl

/-- Batches of positions are searched, and the evaluations of each are saved. -/
theorem exists_supply (fresh : Server → Identity) (now : Instant) (h : engine.Answers level)
    {bs : List (List Position)}
    (hbs : ∀ b ∈ bs, 1 ≤ b.length ∧ b.length ≤ sendBatch)
    (hmoves : ∀ p ∈ bs.flatten, p.hasMoves = true)
    (s : Server) (calls : List BookCall) (en : τ) (searched : List Position) :
    ∃ es en' deliveries,
      supply (Server.access fresh now).recorded engine.recorded level bs (s, calls) (en, searched) =
        (.ok (), (s.saved es, calls ++ deliveries), (en', bs.flatten.reverse ++ searched)) ∧
      Searches engine level bs.flatten es en en' ∧
      (∀ call ∈ deliveries, IsDelivery call) ∧ deliveries.flatMap BookCall.sent = es := by
  induction bs generalizing s calls en searched with
  | nil => exact ⟨[], en, [], by simp [supply], .nil en, by simp, rfl⟩
  | cons b bs ih =>
    obtain ⟨hb, hbs⟩ := List.forall_mem_cons.1 hbs
    rw [List.flatten_cons, List.forall_mem_append] at hmoves
    obtain ⟨es, en₁, hes⟩ := exists_searches h hmoves.1 en
    have hlength : es.length = b.length := by rw [← hes.map_position, List.length_map]
    have hsend : (Server.access fresh now).recorded.sendEvaluations es (s, calls) =
        (.ok (s.store.saveAll es).1,
          (s.saved es, calls ++ [.evaluations es (.ok (s.store.saveAll es).1)])) := by
      have hle : es.length ≤ maxBatch := by
        rw [hlength]
        exact hb.2.trans (by decide)
      simp only [BookAccess.recorded, BookCall.note, Server.access,
        s.takeEvaluations_of_length_le hle]
      rfl
    obtain ⟨fs, en₂, deliveries, hrest, hfs, hall, hsent⟩ := ih hbs hmoves.2 (s.saved es)
      (calls ++ [.evaluations es (.ok (s.store.saveAll es).1)]) en₁ (b.reverse ++ searched)
    refine ⟨es ++ fs, en₂, .evaluations es (.ok (s.store.saveAll es).1) :: deliveries, ?_,
      hes.append hfs, List.forall_mem_cons.2 ⟨⟨hlength ▸ hb.1, hlength ▸ hb.2, rfl⟩, hall⟩, ?_⟩
    · rw [supply, hes.evaluateAll_recorded_eq]
      dsimp only
      rw [hsend]
      dsimp only
      rw [hrest, List.flatten_cons, List.reverse_append, s.saved_append, List.append_assoc,
        List.append_assoc]
      rfl
    · rw [List.flatMap_cons, hsent]
      rfl

end Requests

end Seed
end OthelloBook
