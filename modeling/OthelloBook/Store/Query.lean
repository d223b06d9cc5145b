import OthelloBook.Cache
import OthelloBook.Store.Basic
import OthelloBook.Wire.Message

/-!
# Queries

What is asked of a store: the evaluations for a list of positions, the positions that need a
deeper search, and how many rows there are of each kind.
-/
namespace OthelloBook

namespace Store

def queryBatch : Nat := 500

def blobs (keys : List Position) : List (List UInt8) :=
  (keys.map Position.bytes).mergeSort fun a b => decide (a ≤ b)

/-- The rows of the given positions, by ascending bytes of the position. -/
def rowsAt (s : Store) (keys : List Position) : List Row := (blobs keys).filterMap s.find?

def addRows (c : Cache) : List Row → Except BookError Cache
  | [] => .ok c
  | r :: rs => do
    let e ← r.evaluation
    let added := c.add e.position e
    let _ ← added.1
    addRows added.2 rs

def addBatches (s : Store) (c : Cache) : List (List Position) → Except BookError Cache
  | [] => .ok c
  | keys :: rest => do addBatches s (← addRows c (s.rowsAt keys)) rest

def lookupKeys (ps : List Position) : List Position :=
  Position.ascending (ps.filterMap LookupRule.storageKey?)

def lookup (s : Store) (ps : List Position) : Except StoreError Cache :=
  (s.addBatches .empty (batches queryBatch (lookupKeys ps))).mapError .corrupt

/-- Rows with a lower level come first, and of one level those with a lower priority. -/
def byLevel (a b : Row) : Bool :=
  decide (a.level < b.level) || (decide (a.level = b.level) && decide (a.priority ≤ b.priority))

/-- The rows whose search is weaker than what `level` asks for and not exact. -/
def rowsBelow (s : Store) (discs level : Nat) : List Row :=
  (s.rows.filter fun r =>
    decide (r.discCount = (discs : Int)) && decide (r.confidence < 100) &&
      decide (r.grade < (Level.floor discs level).grade)).mergeSort byLevel

/-- The stored positions of a number of discs that `level` asks to search again. -/
def worklist (s : Store) (discs level : Nat) : Except StoreError (List Position) :=
  match (s.rowsBelow discs level).mapM fun r => Position.ofBytes r.position with
  | .ok ps => .ok (ps.filter Position.isSavable)
  | .error e => .error (.corrupt e)

/-- The numbers of discs after which the level that the book aims at is another one, each with the
level up to there. -/
def targetSteps : List (Nat × Nat) :=
  ((List.range' Level.minDiscs (Level.maxDiscs - Level.minDiscs)).filter fun discs =>
    Level.target (discs + 1) ≠ Level.target discs).map fun discs => (discs, Level.target discs)

/-- The level that the book aims at, for a stored number of discs: that of the first step which is not
passed, or of the last number of discs. -/
def storedTarget (discs : Int) : Int :=
  match targetSteps.find? fun step => decide (discs ≤ step.1) with
  | some step => step.2
  | none => Level.target Level.maxDiscs

def storedFloor (discs : Int) : Grade :=
  ⟨min (storedTarget discs) (64 - discs), Confidence.p73.percent, storedTarget discs⟩

/-- The rows of the whole book that need another search, lowest priority first. -/
def rowsByPriority (s : Store) : List Row :=
  (s.rows.filter fun r =>
    decide (r.confidence < 100) && decide (r.grade < storedFloor r.discCount)).mergeSort
      fun a b => decide (a.priority ≤ b.priority)

def rowJob (r : Row) : Except BookError Job := do
  let p ← Position.ofBytes r.position
  return ⟨p, Level.target (r.discCount % (1 <<< 32 : Nat)).toNat⟩

def byPriority (s : Store) (limit : Nat) : Except StoreError (List Job) :=
  ((s.rowsByPriority.take limit).mapM rowJob).mapError .corrupt

def pairLe (a b : Int × Int) : Bool :=
  decide (a.1 < b.1) || (decide (a.1 = b.1) && decide (a.2 ≤ b.2))

def counts (s : Store) : List BookCount :=
  let kinds := s.rows.map fun r => (r.discCount, r.level)
  (kinds.eraseDups.mergeSort pairLe).map fun (kind : Int × Int) =>
    ⟨(kind.1 % (1 <<< 32 : Nat)).toNat, (kind.2 % (1 <<< 8 : Nat)).toNat, kinds.count kind⟩

end Store

/-! ## Storage

The store as those see it who hand out work. A request may fail, and others may write to the store
at any time, so that each answer comes with the state of the storage after it. -/

structure Storage (σ : Type) where
  worklist (discs level : Nat) : σ → Except StoreError (List Position) × σ
  save (e : Evaluation) : σ → Except StoreError SaveOutcome × σ

/-- A store that nobody else uses. -/
def Store.storage : Storage Store where
  worklist discs level s := (s.worklist discs level, s)
  save e s :=
    let (outcome, s) := s.save e
    (.ok outcome, s)

end OthelloBook
