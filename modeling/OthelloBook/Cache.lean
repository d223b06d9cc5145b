import OthelloBook.Evaluation
import Std.Data.TreeMap
import Std.Data.TreeSet

/-!
# Caches of evaluations

A cache holds the best evaluation met for each canonical position. A position is looked up by its
rule: a finished game needs no entry, a forced pass uses the entry of the other side, and all
others the entry of their canonical image, turned back.
-/
namespace OthelloBook

/-- The distinct positions of a list in ascending order. -/
def Position.ascending (ps : List Position) : List Position := (Std.TreeSet.ofList ps).toList

inductive LookupRule where
  | gameEnd | pass | stored
  deriving DecidableEq, Repr

namespace LookupRule

def of (p : Position) : LookupRule :=
  if p.hasMoves then .stored else if p.pass.hasMoves then .pass else .gameEnd

/-- The position under which the evaluation of `p` is kept, where it is kept at all. -/
def storageKey? (p : Position) : Option Position :=
  match of p with
  | .gameEnd => none
  | .pass => some p.pass.canonical
  | .stored => some p.canonical

end LookupRule

structure Cache where
  entries : Std.TreeMap Position Evaluation

namespace Cache

def empty : Cache := ⟨∅⟩

def size (c : Cache) : Nat := c.entries.size

def isEmpty (c : Cache) : Bool := c.entries.isEmpty

/-- The entry of a position, without any rule. -/
def get? (c : Cache) (p : Position) : Option Evaluation := c.entries[p]?

def contains (c : Cache) (p : Position) : Bool := (c.get? p).isSome

def toList (c : Cache) : List Evaluation := c.entries.toList.map Prod.snd

/-- Keeps an evaluation under a position unless the entry there is as good; says whether the
cache changed. -/
def offer (c : Cache) (p : Position) (e : Evaluation) : Bool × Cache :=
  match c.get? p with
  | some found => if e.isBetterThan found then (true, ⟨c.entries.insert p e⟩) else (false, c)
  | none => (true, ⟨c.entries.insert p e⟩)

/-- Offers an evaluation under a canonical position, which has to be its own. The cache after it
comes with the answer, also with an error. -/
def add (c : Cache) (p : Position) (e : Evaluation) : Except BookError Bool × Cache :=
  if !p.isCanonical then (.error (.evaluation (.notCanonical p)), c)
  else if e.position ≠ p then (.error (.evaluation (.misfiled e.position p)), c)
  else
    let (changed, c) := c.offer p e
    (.ok changed, c)

def addAny (c : Cache) (e : Evaluation) : Except BookError Bool × Cache :=
  c.add e.canonicalize.position e.canonicalize

def update (c other : Cache) : Cache :=
  other.entries.toList.foldl (fun c entry => (c.offer entry.1 entry.2).2) c

def offerAny (c : Cache) (e : Evaluation) : Cache :=
  (c.offer e.canonicalize.position e.canonicalize).2

def ofList (es : List Evaluation) : Cache := es.foldl offerAny empty

/-- The entry of the canonical image, turned back. -/
def lookupStored (c : Cache) (p : Position) : Except BookError Evaluation :=
  match c.get? p.canonicalize.1 with
  | some e => .ok (e.unrotate p.canonicalize.2)
  | none => .error (.notFound p)

def lookup (c : Cache) (p : Position) : Except BookError Evaluation :=
  match LookupRule.of p with
  | .gameEnd => .ok (.ofGameEnd p)
  | .pass => (c.lookupStored p.pass).map Evaluation.beforePass
  | .stored => c.lookupStored p

/-- The keys without an entry that the children of a position need, in ascending order. -/
def missingChildren (c : Cache) (p : Position) : List Position :=
  Position.ascending <|
    (p.children.filterMap fun child => LookupRule.storageKey? child.2).filter
      fun key => !c.contains key

end Cache
end OthelloBook
