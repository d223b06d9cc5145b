import OthelloBook.Proofs.Engine.Evaluate
import OthelloBook.Proofs.Evaluation.Bytes
import OthelloBook.Wire.Decode

/-!
# Where evaluations come from

An evaluation is checked when it is made of parts or read from a message. All others are made of
evaluations without another check: images, the two evaluations that need no search, what a cache
finds and what is evaluated with an engine. Each of these ways leads from valid evaluations to valid
ones, so that none is ever met that the checks would refuse.
-/
namespace OthelloBook.Evaluation

inductive Obtained : Evaluation → Prop
  | checked {e f : Evaluation} (h : e.validate = .ok f) : Obtained f
  | read {d : Json.Draft} {e : Evaluation} (h : Wire.readEvaluation d = .ok e) : Obtained e
  | ofGameEnd (p : Position) : Obtained (ofGameEnd p)
  | beforePass {e : Evaluation} (h : Obtained e) (hblocked : e.position.pass.hasMoves = false) :
      Obtained e.beforePass
  | rotate {e : Evaluation} (h : Obtained e) (s : Symmetry) : Obtained (e.rotate s)
  | unrotate {e : Evaluation} (h : Obtained e) (s : Symmetry) : Obtained (e.unrotate s)
  | canonicalize {e : Evaluation} (h : Obtained e) : Obtained e.canonicalize
  | lookup {c : Cache.History} (hc : ∀ e ∈ c.evaluations, Obtained e) {p : Position}
      {e : Evaluation} (h : c.cache.lookup p = .ok e) : Obtained e
  | evaluate {σ : Type} {engine : Engine σ}
      (hposition : ∀ q level st f, q.hasMoves = true → (engine.search q level st).1 = .ok f →
        f.position = q)
      (hobtained : ∀ q level st f, q.hasMoves = true → (engine.search q level st).1 = .ok f →
        Obtained f)
      {p : Position} {level : ℕ} {st : σ} {e : Evaluation}
      (h : (engine.evaluate p level st).1 = .ok e) : Obtained e

theorem valid_of_readEvaluation {d : Json.Draft} {e : Evaluation}
    (h : Wire.readEvaluation d = .ok e) : e.Valid := by
  rw [Wire.readEvaluation] at h
  split at h
  case h_1 => cases h
  case h_2 f _ =>
    rw [Wire.refuse, mapError_eq_ok_iff] at h
    obtain ⟨hvalid, rfl⟩ := (validate_eq_ok_iff f).1 h
    exact hvalid

theorem Obtained.valid {e : Evaluation} (h : Obtained e) : e.Valid := by
  -- On the way in which it was obtained: what it was made of is valid already.
  induction h with
  | checked h =>
    obtain ⟨hvalid, rfl⟩ := (validate_eq_ok_iff _).1 h
    exact hvalid
  | read h => exact valid_of_readEvaluation h
  | ofGameEnd p => exact valid_ofGameEnd p
  | beforePass _ hblocked ih => exact ih.beforePass hblocked
  | rotate _ s ih => exact ih.rotate s
  | unrotate _ s ih => exact ih.rotate s.inverse
  | canonicalize _ ih => exact ih.canonicalize
  | lookup _ h ih =>
    exact Cache.valid_of_lookup (Cache.History.keyed _)
      (fun _ _ => Cache.History.valid_of_get?_cache _ ih) h
  | evaluate hposition _ h ih =>
    exact Engine.Proper.valid_of_evaluate ⟨hposition _ _ _ _, ih _ _ _ _⟩ h

/-- Every evaluation that is obtained passes the checks again as it is. What is found in a cache or
evaluated with an engine is of the position that was asked for, and engines only search positions
with a legal move. The numbers fit in bytes, and so does every step of the arithmetic for finished
games and forced passes, where bytes give the same as unbounded numbers. -/
theorem every_evaluation_is_valid :
    (∀ e, Obtained e → e.validate = .ok e ∧ e.level % 2 = 0 ∧ e.level ≤ 60 ∧ e.depth ≤ 60 ∧
      -64 ≤ e.score ∧ e.score ≤ 64 ∧ e.position.Replays e.bestMoves) ∧
    (∀ (c : Cache.History) (p : Position) (e : Evaluation),
      c.cache.lookup p = .ok e → e.position = p) ∧
    (∀ (σ : Type) (engine : Engine σ) (level : ℕ) (st : σ),
      (∀ q f, q.hasMoves = true → (engine.search q level st).1 = .ok f → f.position = q) →
      ∀ p e, (engine.evaluate p level st).1 = .ok e → e.position = p) ∧
    (∀ (σ : Type) (engine : Engine σ) (p : Position) (level : ℕ) (st : σ) (record : List Position),
      ∃ searched, engine.recorded.evaluate p level (st, record) =
          ((engine.evaluate p level st).1, (engine.evaluate p level st).2, searched ++ record) ∧
        ∀ q ∈ searched, q.hasMoves = true) ∧
    (∀ p, ∃ b, Packed.ofGameEnd? p = some b ∧ b.unpack = .ofGameEnd p) ∧
    ∀ e, Obtained e → ∃ b, e.pack? = some b ∧ b.unpack = e ∧
      ∃ b', b.beforePass? = some b' ∧ b'.unpack = e.beforePass := by
  refine ⟨fun e he => ?_, fun c p e => Cache.position_of_lookup c.keyed,
    fun σ engine level st hposition p e => Engine.position_of_evaluate hposition,
    fun σ engine => engine.exists_searched, exists_ofGameEnd?, fun e he => he.valid.exists_pack?⟩
  have hvalid := he.valid
  exact ⟨(validate_eq_ok_iff e).2 ⟨hvalid, rfl⟩, hvalid.level_even, hvalid.level_le,
    hvalid.depth_le, hvalid.le_score, hvalid.score_le, hvalid.replays⟩

/-- An evaluation by an engine of a position before a forced pass, found again in a cache for an image
of this position. -/
theorem every_evaluation_is_valid_turned_pass :
    ∃ (engine : Engine (List (Position × ℕ))) (blocked : Position) (e f : Evaluation)
      (c : Cache.History) (s : Symmetry),
      (engine.evaluate blocked 20 []).1 = .ok e ∧ e.bestMoves = [.pass, .play 0] ∧
      e.position = blocked ∧ c.cache.lookup (blocked.rotate s) = .ok f ∧
      f.position = blocked.rotate s ∧ f.validate = .ok f ∧ f.score = -3 := by
  let script : Script := ⟨none, 1, 73, none, 3⟩
  let blocked : Position := ⟨0x02, 0xfc, by decide⟩
  let stored : Evaluation := ⟨blocked.pass, 20, 20, .p73, 3, [.play 0]⟩
  let e : Evaluation := stored.beforePass
  let s : Symmetry := ⟨true, false, true⟩
  let c : Cache.History := .addAny .empty (stored.rotate ⟨false, true, false⟩)
  obtain ⟨hvalid, hlookup, hevaluate, -, -, -⟩ := every_evaluation_is_valid
  have hproper := script.proper_engine
  have hsearch : (script.engine.search blocked.pass 20 []).1 = .ok stored := by decide +kernel
  have he : (script.engine.evaluate blocked 20 []).1 = .ok e := by decide +kernel
  have hstored : Obtained stored :=
    .checked ((validate_eq_ok_iff stored).2 ⟨hproper.valid (by decide +kernel) hsearch, rfl⟩)
  have hc : ∀ f ∈ c.evaluations, Obtained f := by
    intro f hf
    obtain rfl := List.mem_singleton.1 hf
    exact hstored.rotate _
  have hf : c.cache.lookup (blocked.rotate s) = .ok (e.rotate s) := by decide +kernel
  exact ⟨script.engine, blocked, e, e.rotate s, c, s, he, rfl,
    hevaluate _ script.engine 20 [] (fun _ _ => hproper.position) blocked e he, hf,
    hlookup c _ _ hf, (hvalid _ (.lookup hc hf)).1, rfl⟩

end OthelloBook.Evaluation
