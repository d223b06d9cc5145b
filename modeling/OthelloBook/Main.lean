import OthelloBook.Engine.Rehearsal
import OthelloBook.Report

/-!
# The programs

Counting the book and seeding it, from the command line. A book lasts as long as the program, and
no server can be reached from here.
-/
namespace OthelloBook.Program

def clientOutput (args : List String) : Report.Output :=
  match ClientCommand.parse args with
  | .error e => Report.usage e
  | .ok (.learn ..) => Report.failure
  | .ok (.seed common discs level) =>
    let nowhere := Rehearsal.host fun _ _ => none
    (Report.ofSeed BookAccess.unreachable (fun c => c.engine nowhere) common discs level ()
      (⟨none, { blocks := [] }⟩ : Session Rehearsal)).1

/-- Clients learn and seed; all else is for the server. -/
def output (args : List String) : Report.Output :=
  if args.head? = some "learn" ∨ args.head? = some "seed" then clientOutput args
  else Report.ofServer args

end OthelloBook.Program

def main (args : List String) : IO UInt32 := do
  let o := OthelloBook.Program.output args
  IO.print o.text
  return o.exit.toUInt32
