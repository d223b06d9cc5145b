import OthelloBook.Proofs.Evaluation

/-!
# Evaluations in bytes

The numbers of an evaluation take one byte each: level and depth without a sign, the score with one.
Arithmetic on bytes has a result only if it fits in a byte again. What is worked out for a finished
game always fits, and so does the score on the other side of a pass, since valid scores are far from
the ends of the range.
-/
namespace OthelloBook

def byte? (n : ℕ) : Option UInt8 := if n < 256 then some (.ofNat n) else none

def signedByte? (z : ℤ) : Option Int8 := if -128 ≤ z ∧ z < 128 then some (.ofInt z) else none

theorem exists_byte? {n : ℕ} (h : n < 256) : ∃ b, byte? n = some b ∧ b.toNat = n :=
  ⟨.ofNat n, if_pos h, UInt8.toNat_ofNat_of_lt' h⟩

theorem exists_signedByte? {z : ℤ} (hlow : -128 ≤ z) (hhigh : z < 128) :
    ∃ b, signedByte? z = some b ∧ b.toInt = z :=
  ⟨.ofInt z, if_pos ⟨hlow, hhigh⟩, Int8.toInt_ofInt_of_le hlow hhigh⟩

def Position.finalScoreByte? (p : Position) : Option Int8 := do
  let own ← signedByte? p.own.count
  let opposing ← signedByte? p.opposing.count
  if opposing < own then
    let doubled ← signedByte? (2 * opposing.toInt)
    signedByte? (64 - doubled.toInt)
  else if own < opposing then
    let doubled ← signedByte? (2 * own.toInt)
    signedByte? (-64 + doubled.toInt)
  else return 0

/-- No step on the way to the result leaves the signed bytes. -/
theorem Position.exists_finalScoreByte? (p : Position) :
    ∃ b, p.finalScoreByte? = some b ∧ b.toInt = p.finalScore := by
  have hownle := p.own.count_le
  have hopposingle := p.opposing.count_le
  obtain ⟨own, hown, hownval⟩ := exists_signedByte? (z := p.own.count) (by omega) (by omega)
  obtain ⟨opposing, hopposing, hopposingval⟩ :=
    exists_signedByte? (z := p.opposing.count) (by omega) (by omega)
  simp only [finalScoreByte?, hown, hopposing, Option.bind_eq_bind, Option.bind_some,
    Int8.lt_iff_toInt_lt, hownval, hopposingval, finalScore]
  by_cases hwon : (p.opposing.count : ℤ) < p.own.count
  · obtain ⟨doubled, hdoubled, hval⟩ :=
      exists_signedByte? (z := 2 * p.opposing.count) (by omega) (by omega)
    rw [if_pos hwon, if_pos hwon, hdoubled, Option.bind_some, hval]
    exact exists_signedByte? (by omega) (by omega)
  · rw [if_neg hwon, if_neg hwon]
    by_cases hlost : (p.own.count : ℤ) < p.opposing.count
    · obtain ⟨doubled, hdoubled, hval⟩ :=
        exists_signedByte? (z := 2 * p.own.count) (by omega) (by omega)
      rw [if_pos hlost, if_pos hlost, hdoubled, Option.bind_some, hval]
      exact exists_signedByte? (by omega) (by omega)
    · rw [if_neg hlost, if_neg hlost]
      exact ⟨0, rfl, rfl⟩

namespace Evaluation

/-- An evaluation whose numbers are bytes. -/
structure Packed where
  position : Position
  level : UInt8
  depth : UInt8
  confidence : Confidence
  score : Int8
  bestMoves : List Move

namespace Packed

def unpack (b : Packed) : Evaluation :=
  ⟨b.position, b.level.toNat, b.depth.toNat, b.confidence, b.score.toInt, b.bestMoves⟩

def ofGameEnd? (p : Position) : Option Packed := do
  let empties := min p.emptyCount 60
  let level ← byte? (Level.ofDepth empties)
  let depth ← byte? empties
  let score ← p.finalScoreByte?
  return ⟨p, level, depth, .p100, score, []⟩

def beforePass? (b : Packed) : Option Packed := do
  let score ← signedByte? (-b.score.toInt)
  return { b with position := b.position.pass, score := score, bestMoves := .pass :: b.bestMoves }

end Packed

def pack? (e : Evaluation) : Option Packed := do
  let level ← byte? e.level
  let depth ← byte? e.depth
  let score ← signedByte? e.score
  return ⟨e.position, level, depth, e.confidence, score, e.bestMoves⟩

/-- Bytes are enough for the evaluation of a finished game. -/
theorem exists_ofGameEnd? (p : Position) :
    ∃ b, Packed.ofGameEnd? p = some b ∧ b.unpack = ofGameEnd p := by
  have hlevel : Level.ofDepth (min p.emptyCount 60) = Level.ofDepth p.emptyCount := by
    simp [Level.ofDepth, Level.maximum]
  have hle := Level.ofDepth_le p.emptyCount
  obtain ⟨level, hl, hlval⟩ := exists_byte? (n := Level.ofDepth (min p.emptyCount 60))
    (by rw [hlevel]; exact hle.trans_lt (by decide))
  obtain ⟨depth, hd, hdval⟩ := exists_byte? (n := min p.emptyCount 60) (by omega)
  obtain ⟨score, hs, hsval⟩ := p.exists_finalScoreByte?
  refine ⟨⟨p, level, depth, .p100, score, []⟩, ?_, ?_⟩
  · simp only [Packed.ofGameEnd?, hl, hd, hs, Option.bind_eq_bind, Option.bind_some]
    rfl
  · rw [Packed.unpack, ofGameEnd, hlval, hdval, hsval, hlevel]

/-- Bytes are enough for a valid evaluation and for the one before a pass that leads to it. -/
theorem Valid.exists_pack? {e : Evaluation} (h : e.Valid) :
    ∃ b, e.pack? = some b ∧ b.unpack = e ∧
      ∃ b', b.beforePass? = some b' ∧ b'.unpack = e.beforePass := by
  have hlow := h.le_score
  have hhigh := h.score_le
  obtain ⟨level, hl, hlval⟩ := exists_byte? (h.level_le.trans_lt (by decide))
  obtain ⟨depth, hd, hdval⟩ := exists_byte? (h.depth_le.trans_lt (by decide))
  obtain ⟨score, hs, hsval⟩ := exists_signedByte? (z := e.score) (by omega) (by omega)
  obtain ⟨opposite, ho, hoval⟩ := exists_signedByte? (z := -e.score) (by omega) (by omega)
  refine ⟨⟨e.position, level, depth, e.confidence, score, e.bestMoves⟩, ?_, ?_,
    ⟨e.position.pass, level, depth, e.confidence, opposite, .pass :: e.bestMoves⟩, ?_, ?_⟩
  · simp only [pack?, hl, hd, hs, Option.bind_eq_bind, Option.bind_some]
    rfl
  · rw [Packed.unpack, hlval, hdval, hsval]
  · simp only [Packed.beforePass?, hsval, ho, Option.bind_eq_bind, Option.bind_some]
    rfl
  · rw [Packed.unpack, Evaluation.beforePass, hlval, hdval, hoval]

end Evaluation
end OthelloBook
