import OthelloBook.Error

/-!
# Levels

How sure an engine is of a score: one of six selectivity levels, named by a percentage.
How deep positions are searched: the level that the book aims at for a number of discs, the least
strength that counts as reached, and which positions are kept at all.
-/
namespace OthelloBook

inductive Confidence where
  | p73 | p87 | p95 | p98 | p99 | p100
  deriving DecidableEq, Repr

namespace Confidence

def all : List Confidence := [.p73, .p87, .p95, .p98, .p99, .p100]

theorem mem_all (c : Confidence) : c ∈ all := by cases c <;> decide

def percent : Confidence → Nat
  | .p73 => 73
  | .p87 => 87
  | .p95 => 95
  | .p98 => 98
  | .p99 => 99
  | .p100 => 100

def rank : Confidence → Nat
  | .p73 => 0
  | .p87 => 1
  | .p95 => 2
  | .p98 => 3
  | .p99 => 4
  | .p100 => 5

theorem rank_lt_rank_iff (a b : Confidence) : a.rank < b.rank ↔ a.percent < b.percent := by
  cases a <;> cases b <;> decide

/-- Only a score without selectivity is exact. -/
def isExact (c : Confidence) : Bool := c = .p100

def ofPercent? (n : Nat) : Option Confidence := all.find? fun c => c.percent = n

@[simp] theorem ofPercent?_percent (c : Confidence) : ofPercent? c.percent = some c := by
  cases c <;> rfl

def ofPercent (n : Nat) : Except BookError Confidence :=
  match ofPercent? n with
  | some c => .ok c
  | none => .error (.evaluation (.confidence n))

def text (c : Confidence) : String := toString c.percent ++ "%"

end Confidence

/-- How strong a search was. Strengths are compared by depth, then confidence, then level. -/
structure Strength where
  depth : Nat
  confidence : Confidence
  level : Nat
  deriving DecidableEq, Repr

namespace Strength

def weaker (a b : Strength) : Bool :=
  a.depth < b.depth ||
    (a.depth = b.depth &&
      (a.confidence.rank < b.confidence.rank ||
        (a.confidence = b.confidence && a.level < b.level)))

instance : LT Strength := ⟨fun a b => weaker a b = true⟩

instance (a b : Strength) : Decidable (a < b) := inferInstanceAs (Decidable (_ = true))

end Strength

namespace Level

/-- The least level that is kept in the book. -/
def minimum : Nat := 16

def maximum : Nat := 60

def maxDiscs : Nat := 30

def minDiscs : Nat := 4

/-- The level that the book aims at; it falls as the board fills. -/
def target (discs : Nat) : Nat :=
  if discs ≤ 12 then 36 else if discs ≤ 20 then 34 else 32

/-- The least strength of a finished search at a level: its depth is the level, or all empty
squares where they are fewer, at the lowest confidence. -/
def floor (discs level : Nat) : Strength := ⟨min level (64 - discs), .p73, level⟩

/-- The least even level of at least `depth`, and at most the highest one. -/
def ofDepth (depth : Nat) : Nat :=
  let depth := min depth maximum
  depth + depth % 2

end Level

/-- The book keeps positions with a legal square and few enough discs. -/
def Position.isSavable (p : Position) : Bool := p.hasMoves && decide (p.discCount ≤ Level.maxDiscs)

end OthelloBook
