import OthelloBook.Worker.Access

/-!
# Seeding

Filling the book from the first position on. The positions of each number of discs come from those
of the number before; a book and an engine are then asked for what is missing.
-/
namespace OthelloBook.Seed

/-- The keys that the children of some positions need, in ascending order. -/
def successors (ps : List Position) : List Position :=
  Position.ascending (ps.flatMap fun p => p.children.filterMap fun c => LookupRule.storageKey? c.2)

def layersFrom (discs : Nat) (ps : List Position) : Nat → List (Nat × List Position)
  | 0 => []
  | 1 => [(discs, ps)]
  | n + 2 => (discs, ps) :: layersFrom (discs + 1) (successors ps) (n + 1)

/-- For each number of discs up to `max`, the keys of all positions with so many discs that the game
can reach. The book keeps nothing beyond its own bound. -/
def layers (max : Nat) : List (Nat × List Position) :=
  layersFrom Level.minDiscs (LookupRule.storageKey? .start).toList
    (min max Level.maxDiscs + 1 - Level.minDiscs)

structure Report where
  discs : Nat
  positions : Nat
  found : Nat
  computed : Nat
  deriving DecidableEq, Repr

def sendBatch : Nat := 20

def remember (known : Cache) : List Evaluation → Except BookError Cache
  | [] => .ok known
  | e :: es => do
    let added := known.addAny e
    let _ ← added.1
    remember added.2 es

def lookUpAll (book : BookAccess σ) (known : Cache) :
    List (List Position) → σ → Except WorkError Cache × σ
  | [], st => (.ok known, st)
  | ps :: rest, st =>
    match book.lookup ps st with
    | (.error e, st) => (.error (.access e), st)
    | (.ok es, st) =>
      match remember known es with
      | .error e => (.error (.book e), st)
      | .ok known => lookUpAll book known rest st

def evaluateAll (engine : Engine τ) (level : Nat) :
    List Position → τ → Except EngineError (List Evaluation) × τ
  | [], en => (.ok [], en)
  | p :: ps, en =>
    match engine.evaluate p level en with
    | (.error e, en) => (.error e, en)
    | (.ok e, en) =>
      let (es, en) := evaluateAll engine level ps en
      (es.map (e :: ·), en)

/-- Evaluates batches of positions and sends each batch to the book when it is done. -/
def supply (book : BookAccess σ) (engine : Engine τ) (level : Nat) :
    List (List Position) → σ → τ → Except WorkError Unit × σ × τ
  | [], st, en => (.ok (), st, en)
  | ps :: rest, st, en =>
    match evaluateAll engine level ps en with
    | (.error e, en) => (.error (.engine e), st, en)
    | (.ok es, en) =>
      match book.sendEvaluations es st with
      | (.error e, st) => (.error (.access e), st, en)
      | (.ok _, st) => supply book engine level rest st en

def fillIn (book : BookAccess σ) (engine : Engine τ) (level : Nat) :
    List (Nat × List Position) → σ → τ → Except WorkError (List Report) × σ × τ
  | [], st, en => (.ok [], st, en)
  | (discs, ps) :: rest, st, en =>
    match lookUpAll book .empty (batches maxBatch ps) st with
    | (.error e, st) => (.error e, st, en)
    | (.ok known, st) =>
      let missing := ps.filter fun p => !known.contains p
      match supply book engine level (batches sendBatch missing) st en with
      | (.error e, st, en) => (.error e, st, en)
      | (.ok (), st, en) =>
        let (reports, st, en) := fillIn book engine level rest st en
        (reports.map (⟨discs, ps.length, known.size, missing.length⟩ :: ·), st, en)

/-- Fills the book with all positions of up to `max` discs, and reports on each number of discs. -/
def run (book : BookAccess σ) (engine : Engine τ) (max level : Nat) (st : σ) (en : τ) :
    Except WorkError (List Report) × σ × τ :=
  fillIn book engine level (layers max) st en

end OthelloBook.Seed
