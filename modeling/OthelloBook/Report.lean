import OthelloBook.Files.System
import OthelloBook.Seed
import OthelloBook.Settings.Commands
import OthelloBook.Store.Opening
import OthelloBook.Store.Query

/-!
# Reports

What the programs print: how many rows the book has of each kind, and what was done to seed it. A
program that fails prints nothing.
-/
namespace OthelloBook.Report

structure Output where
  exit : Nat
  text : String
  deriving DecidableEq, Repr

def failure : Output := ⟨1, ""⟩

/-- A program that was not asked properly, or only for a text. -/
def usage (e : UsageError) : Output := ⟨e.exitCode, ""⟩

def countLine (discs level count : String) : String :=
  Text.alignRight 5 discs ++ " " ++ Text.alignRight 5 level ++ " " ++ Text.alignRight 10 count ++ "\n"

def counts (rows : List BookCount) : String :=
  countLine "discs" "level" "count" ++
    String.join (rows.map fun r =>
      countLine (toString r.discs) (toString r.level) (toString r.count)) ++
    "total " ++ Text.alignRight 16 (toString (rows.foldl (fun n r => n + r.count) 0)) ++ "\n"

def ofStore : Option Store → Output
  | none => failure
  | some s => ⟨0, counts s.counts⟩

/-- Opens the book at an address: a new one. -/
def openStore (d : DatabaseSettings) : Option Store :=
  if FileTree.plain.canHold d.url d.maxConnections then some .empty else none

/-- What the server prints for its arguments. To serve the book takes a network, which is not to be
had here. -/
def ofServer (args : List String) : Output :=
  match ServerCommand.parse args with
  | .error e => usage e
  | .ok (.stats d) => ofStore (openStore d)
  | .ok (.serve _) => failure

def seedLine (r : Seed.Report) : String :=
  let column (n : Nat) := Text.alignRight 8 (toString n)
  Text.alignRight 2 (toString r.discs) ++ " discs: " ++ column r.positions ++ " positions, " ++
    column r.found ++ " found, " ++ column r.computed ++ " computed\n"

def ofReports : Except WorkError (List Seed.Report) → Output
  | .error _ => failure
  | .ok reports => ⟨0, String.join (reports.map seedLine)⟩

/-- The output of a program that seeds the book: its command has to name an engine. -/
def ofSeed (book : BookAccess σ) (engineOf : EngineCommand → Engine τ) (common : CommonSettings)
    (discs level : Nat) (st : σ) (en : τ) : Output × σ × τ :=
  match common.command with
  | .error _ => (failure, st, en)
  | .ok command =>
    let (reports, st, en) := Seed.run book (engineOf command) discs level st en
    (ofReports reports, st, en)

end OthelloBook.Report
