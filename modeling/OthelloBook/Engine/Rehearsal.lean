import OthelloBook.Engine.Process
import OthelloBook.Files.Tree

/-!
# Rehearsed processes

Processes that answer from a list, for trying out an engine that runs in one. Each question is
answered by the next block of lines, whichever process it is put to; after some blocks, and when
there is none left, the process ends. Other programs know nothing of the list.
-/
namespace OthelloBook

/-- The answer to a question: texts that are written as lines. -/
structure Block where
  lines : List String
  ends : Bool := false
  deriving DecidableEq, Repr

/-- What a program does: it answers from the list, or it ends at once without an answer. -/
inductive Role where
  | rehearsed | silent
  deriving DecidableEq, Repr

structure Rehearsal where
  blocks : List Block
  /-- The processes that have been started. -/
  started : Nat := 0
  /-- The process that runs, if any. -/
  alive : Option (Nat × Role) := none
  /-- The lines that wait to be read. -/
  waiting : List String := []
  /-- What processes were started with and told, last first. -/
  log : List String := []
  deriving DecidableEq, Repr

namespace Rehearsal

/-- The lines that are read when a text is written: it is cut at each line end, and a carriage
return before that does not count. -/
def linesOf (s : String) : List String :=
  (Text.pieces '\n' s.toList).map fun l =>
    String.ofList (if l.getLast? = some '\r' then l.dropLast else l)

def ask (r : Rehearsal) : Rehearsal :=
  match r.blocks with
  | [] => { r with alive := none }
  | b :: rest =>
    { r with
      blocks := rest
      waiting := r.waiting ++ b.lines.flatMap linesOf
      alive := if b.ends then none else r.alive }

/-- What a program does that is started in a directory, if it can be: the rehearsed one has no name,
and any other has to be found. -/
def roleIn (t : FileTree) (named : Bool) (program directory : String) : Option Role :=
  match t.directory? (Text.utf8 directory) with
  | none => none
  | some w =>
    if !named then some .rehearsed
    else if t.hasProgram w (Text.utf8 program) then some .silent
    else none

/-- Processes of programs with these roles. None is started with an argument in which a zero byte
stands, and only rehearsed ones are logged. -/
def host (role? : String → String → Option Role) : Host Rehearsal where
  start program arguments directory r :=
    let fit := arguments.all fun a => !a.toList.contains '\x00'
    match (role? program directory).filter fun _ => fit with
    | none => (none, r)
    | some role =>
      let n := r.started + 1
      let line := " ".intercalate ("start" :: arguments)
      (some n, { r with
        started := n
        alive := some (n, role)
        waiting := []
        log := if role = .rehearsed then (linesOf line).reverse ++ r.log else r.log })
  send process line r :=
    if r.alive = some (process, .rehearsed) then
      let r := { r with log := line :: r.log }
      (true, if line = "analyze" then r.ask else r)
    else (r.alive = some (process, .silent), r)
  discard _ r := { r with waiting := [] }
  receive _ r := (r.waiting, { r with waiting := [] })
  stop _ r := { r with alive := none, waiting := [] }

end Rehearsal
end OthelloBook
