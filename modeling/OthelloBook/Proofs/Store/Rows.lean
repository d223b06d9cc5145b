import OthelloBook.Proofs.Position.Bytes
import OthelloBook.Store.Basic

/-!
# Rows

The store compares searches as the book does: by depth, then confidence, then level. Both orders are
linear, since they are those of triples of numbers.

The row of a valid evaluation passes all checks and is read back as the evaluation.
-/
namespace OthelloBook

theorem Confidence.percent_inj {a b : Confidence} : a.percent = b.percent ↔ a = b := by
  constructor
  · intro h
    have ha := a.ofPercent?_percent
    rw [h, ofPercent?_percent, Option.some.injEq] at ha
    exact ha.symm
  · rintro rfl
    rfl

namespace Grade

theorem lt_iff {a b : Grade} :
    a < b ↔ a.depth < b.depth ∨ a.depth = b.depth ∧
      (a.confidence < b.confidence ∨ a.confidence = b.confidence ∧ a.level < b.level) := by
  change below a b = true ↔ _
  simp [below]

def key (g : Grade) : ℤ ×ₗ ℤ ×ₗ ℤ := toLex (g.depth, toLex (g.confidence, g.level))

theorem key_injective : Function.Injective key := by
  rintro ⟨_, _, _⟩ ⟨_, _, _⟩ h
  simpa [key] using h

theorem key_lt_key_iff {a b : Grade} : a.key < b.key ↔ a < b := by
  simp [key, lt_iff, Prod.Lex.toLex_lt_toLex]

-- Only the laws are pulled back, since `<` is a function that runs.
instance : IsStrictTotalOrder Grade (· < ·) :=
  RelEmbedding.isStrictTotalOrder (s := (· < ·)) ⟨⟨key, key_injective⟩, key_lt_key_iff⟩

end Grade

namespace Strength

theorem lt_iff {a b : Strength} :
    a < b ↔ a.depth < b.depth ∨
      a.depth = b.depth ∧ (a.confidence.rank < b.confidence.rank ∨
        a.confidence = b.confidence ∧ a.level < b.level) := by
  change weaker a b = true ↔ _
  simp [weaker]

theorem grade_injective : Function.Injective grade := by
  rintro ⟨_, _, _⟩ ⟨_, _, _⟩ h
  simpa [grade, Confidence.percent_inj] using h

theorem grade_lt_grade_iff {a b : Strength} : a.grade < b.grade ↔ a < b := by
  rw [Grade.lt_iff, lt_iff, Confidence.rank_lt_rank_iff, ← Confidence.percent_inj]
  simp only [grade]
  omega

instance : IsStrictTotalOrder Strength (· < ·) :=
  RelEmbedding.isStrictTotalOrder (s := (· < ·)) ⟨⟨grade, grade_injective⟩, grade_lt_grade_iff⟩

end Strength

@[simp] theorem Row.grade_ofEvaluation (e : Evaluation) :
    (Row.ofEvaluation e).grade = e.strength.grade := rfl

@[simp] theorem Move.ofByte_byte (m : Move) : Move.ofByte m.byte = .ok m := by
  have hindex : (if m.byte.toNat < 128 then (m.byte.toNat : ℤ) else m.byte.toNat - 256) = m.index := by
    cases m with
    | play s =>
      have hbyte : (Move.play s).byte.toNat = s.val := by
        simp only [byte, Nat.toUInt8, UInt8.toNat_ofNat']
        omega
      rw [hbyte, if_pos (by omega), index]
    | pass => rfl
  rw [ofByte, hindex, ofIndex, ofIndex?_index]

theorem mapM_ofByte (ms : List Move) : (ms.map Move.byte).mapM Move.ofByte = .ok ms := by
  rw [List.mapM_map, mapM_eq_ok_map fun m _ => m.ofByte_byte, List.map_id']

namespace Row

theorem byteColumn_natCast {name : String} {n : ℕ} (h : n ≤ 255) :
    byteColumn name n = .ok n := by
  rw [byteColumn, if_pos (by omega)]
  rfl

theorem scoreColumn_of_le {v : ℤ} (hmin : -128 ≤ v) (hmax : v ≤ 127) : scoreColumn v = .ok v :=
  if_pos ⟨hmin, hmax⟩

theorem evaluation_ofEvaluation {e : Evaluation} (h : e.Valid) : (ofEvaluation e).evaluation = .ok e := by
  have hpercent : e.confidence.percent ≤ 255 := by cases e.confidence <;> decide
  have hlevel := h.level_le
  have hdepth := h.depth_le
  have hmin := h.le_score
  have hmax := h.score_le
  have hconfidence : Confidence.ofPercent e.confidence.percent = .ok e.confidence := by
    rw [Confidence.ofPercent, Confidence.ofPercent?_percent]
  have hvalid : e.validate = .ok e := by
    rw [Evaluation.validate, e.fault?_eq_none_iff.2 h]
  simp only [evaluation, ofEvaluation, mapM_ofByte, Position.ofBytes_bytes, bind, Except.bind]
  rw [byteColumn_natCast (by omega), byteColumn_natCast (by omega), byteColumn_natCast hpercent,
    scoreColumn_of_le (by omega) (by omega)]
  simpa only [hconfidence] using hvalid

end Row

end OthelloBook
