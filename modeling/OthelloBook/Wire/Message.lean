import OthelloBook.Evaluation
import OthelloBook.Json.Value

/-!
# Messages

What the book server and its clients tell each other, and the JSON values that are sent for it, with
their members in a fixed order.
-/
namespace OthelloBook

/-- A position to be searched at a level. -/
structure Job where
  position : Position
  level : Nat
  deriving DecidableEq

structure Introduction where
  hostname : String
  buildId : String
  deriving DecidableEq, Repr

structure JobResult where
  evaluation : Evaluation
  seconds : Float

/-- How many positions of a number of discs are stored at a level. -/
structure BookCount where
  discs : Nat
  level : Nat
  count : Nat
  deriving DecidableEq, Repr

/-! ## Batches

A long list is sent or looked up in batches of a fixed size, of which only the last may be
shorter. -/

def maxBatch : Nat := 1000

def batches (size : Nat) (xs : List α) : List (List α) :=
  if xs.isEmpty || size == 0 then [] else xs.take size :: batches size (xs.drop size)
termination_by xs.length
decreasing_by
  cases xs with
  | nil => simp_all
  | cons x xs => simp_all; omega

theorem length_le_of_mem_batches {size : Nat} {xs batch : List α}
    (h : batch ∈ batches size xs) : batch.length ≤ size := by
  fun_induction batches size xs with
  | case1 => simp at h
  | case2 xs _ ih =>
    rcases List.mem_cons.1 h with rfl | h
    · exact List.length_take_le ..
    · exact ih h

theorem length_pos_of_mem_batches {size : Nat} {xs batch : List α}
    (h : batch ∈ batches size xs) : 0 < batch.length := by
  fun_induction batches size xs with
  | case1 => simp at h
  | case2 xs hxs ih =>
    rcases List.mem_cons.1 h with rfl | h
    · cases xs <;> simp_all [Nat.pos_iff_ne_zero]
    · exact ih h

theorem flatten_batches {size : Nat} (hs : size ≠ 0) (xs : List α) :
    (batches size xs).flatten = xs := by
  fun_induction batches size xs with
  | case1 xs h => simp_all
  | case2 xs _ ih => rw [List.flatten_cons, ih, List.take_append_drop]

/-! ## Messages as JSON -/

namespace Wire

def ofPosition (p : Position) : Json := .str p.text

def ofMove (m : Move) : Json := .int m.index

def ofConfidence (c : Confidence) : Json := .nat c.percent

def ofEvaluation (e : Evaluation) : Json :=
  .obj [
    ("position", ofPosition e.position),
    ("level", .nat e.level),
    ("depth", .nat e.depth),
    ("confidence", ofConfidence e.confidence),
    ("score", .int e.score),
    ("best_moves", .arr (e.bestMoves.map ofMove))]

def ofJob (j : Job) : Json :=
  .obj [("position", ofPosition j.position), ("level", .nat j.level)]

/-- The answer to a request for work: a job, or null where there is none. -/
def ofJobOffer (j : Option Job) : Json := .obj [("job", .option ofJob j)]

def ofJobResult (r : JobResult) : Json :=
  .obj [("evaluation", ofEvaluation r.evaluation), ("computation_time_seconds", .real r.seconds)]

def ofIntroduction (i : Introduction) : Json :=
  .obj [("hostname", .str i.hostname), ("build_id", .str i.buildId)]

def ofPositions (ps : List Position) : Json := .obj [("positions", .arr (ps.map ofPosition))]

def ofEvaluations (es : List Evaluation) : Json :=
  .obj [("evaluations", .arr (es.map ofEvaluation))]

def ofBookCount (r : BookCount) : Json :=
  .obj [("disc_count", .nat r.discs), ("level", .nat r.level), ("count", .nat r.count)]

end Wire
end OthelloBook
