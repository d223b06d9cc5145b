import OthelloBook.Engine.Process
import OthelloBook.Engine.Basic
import OthelloBook.Proofs.Cache.Lookup

/-!
# Evaluating with an engine

Any position can be evaluated with an engine that searches positions with a legal move: a finished
game needs no search, and the search for a forced pass is one from the other side. Engines that read
their answers from rows answer with valid evaluations, since each row is checked.
-/
namespace OthelloBook

open Evaluation

namespace Engine

variable {σ : Type}

/-- An engine whose answers are valid evaluations of the positions that it is asked to search. -/
structure Proper (engine : Engine σ) : Prop where
  position {p : Position} {level : ℕ} {st : σ} {e : Evaluation} :
    p.hasMoves = true → (engine.search p level st).1 = .ok e → e.position = p
  valid {p : Position} {level : ℕ} {st : σ} {e : Evaluation} :
    p.hasMoves = true → (engine.search p level st).1 = .ok e → e.Valid

/-- The engine with a record of the positions that it is asked to search, the last one first. -/
def recorded (engine : Engine σ) : Engine (σ × List Position) where
  search p level st :=
    ((engine.search p level st.1).1, (engine.search p level st.1).2, p :: st.2)

variable {engine : Engine σ} {p : Position} {level : ℕ} {st : σ} {e : Evaluation}

theorem evaluate_eq_resolve : (engine.evaluate p level st).1 =
    LookupRule.resolve (fun q => (engine.search q level st).1) p := by
  rw [evaluate, LookupRule.resolve]
  cases LookupRule.of p <;> rfl

theorem position_of_evaluate
    (h : ∀ q f, q.hasMoves = true → (engine.search q level st).1 = .ok f → f.position = q)
    (he : (engine.evaluate p level st).1 = .ok e) : e.position = p :=
  LookupRule.position_of_resolve h (evaluate_eq_resolve.symm.trans he)

theorem Proper.valid_of_evaluate (h : engine.Proper) (he : (engine.evaluate p level st).1 = .ok e) :
    e.Valid :=
  LookupRule.valid_of_resolve (fun _ _ => h.position) (fun _ _ => h.valid)
    (evaluate_eq_resolve.symm.trans he)

/-- Only positions with a legal move are searched. -/
theorem exists_searched (engine : Engine σ) (p : Position) (level : ℕ) (st : σ)
    (record : List Position) :
    ∃ searched, engine.recorded.evaluate p level (st, record) =
        ((engine.evaluate p level st).1, (engine.evaluate p level st).2, searched ++ record) ∧
      ∀ q ∈ searched, q.hasMoves = true := by
  rw [evaluate, evaluate]
  cases hrule : LookupRule.of p with
  | gameEnd => exact ⟨[], rfl, by simp⟩
  | pass =>
    refine ⟨[p.pass], rfl, ?_⟩
    simp [(LookupRule.of_eq_pass_iff.1 hrule).2]
  | stored =>
    refine ⟨[p], rfl, ?_⟩
    simp [LookupRule.of_eq_stored_iff.1 hrule]

/-- The numbers of a row are checked. -/
theorem of_ofRow {r : SearchRow} (h : ofRow p level r = .ok e) : e.position = p ∧ e.Valid := by
  rw [ofRow, mapError_eq_ok_iff] at h
  cases hc : Confidence.ofPercent r.confidence with
  | error x =>
    rw [hc] at h
    cases h
  | ok c =>
    rw [hc] at h
    obtain ⟨hvalid, rfl⟩ := (validate_eq_ok_iff _).1 h
    exact ⟨rfl, hvalid⟩

/-- An engine whose answers are made of rows is proper. -/
theorem Proper.of_rows (h : ∀ p level st e, (engine.search p level st).1 = .ok e →
    ∃ r, ofRow p level r = .ok e) : engine.Proper where
  position _ he := (of_ofRow (h _ _ _ _ he).choose_spec).1
  valid _ he := (of_ofRow (h _ _ _ _ he).choose_spec).2

end Engine

theorem Script.proper_engine (s : Script) : s.engine.Proper := by
  apply Engine.Proper.of_rows
  intro p level searched e h
  change s.answer p level = .ok e at h
  rw [Script.answer] at h
  cases hfail : s.fail with
  | some x => simp [hfail] at h
  | none =>
    rw [hfail] at h
    exact ⟨_, h⟩

/-- A process gives an evaluation only when it answers with a result. -/
theorem Session.exists_row_of_search {σ : Type} {host : Host σ} {command : EngineCommand}
    {s : Session σ} {p : Position} {level : ℕ} {e : Evaluation}
    (h : (s.search host command p level).1 = .ok e) : ∃ r, Engine.ofRow p level r = .ok e := by
  rw [search] at h
  split at h
  case h_1 => cases h
  case h_2 =>
    split at h
    case h_1 => cases h
    case h_2 =>
      simp only at h
      split at h
      case h_1 => cases h
      case h_2 row _ => exact ⟨row, h⟩

theorem EngineCommand.proper_engine {σ : Type} (command : EngineCommand) (host : Host σ) :
    (command.engine host).Proper :=
  Engine.Proper.of_rows fun _ _ _ _ h => Session.exists_row_of_search h

end OthelloBook
