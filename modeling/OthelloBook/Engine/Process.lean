import OthelloBook.Engine.Basic
import OthelloBook.Text.Words

/-!
# Engines in processes of their own

An engine that runs as a process and is told by lines of text what to do. A process searches at
the level with which it was started, so that another level needs another process. One that has
not answered as it should is stopped.
-/
namespace OthelloBook

structure EngineCommand where
  program : String
  arguments : List String
  workingDirectory : Option String := none
  cores : Nat := 1
  deriving DecidableEq, Repr

namespace EngineCommand

/-- The directory in which a file is: all before the slashes in front of its name. -/
def parent (path : List Char) : List Char :=
  let lead := (path.reverse.dropWhile (· = '/')).dropWhile (· ≠ '/')
  match lead.dropWhile (· = '/') with
  | [] => lead.take 1
  | cs => cs.reverse

/-- The directory of the program, unless another one is given. -/
def directory (c : EngineCommand) : String :=
  match c.workingDirectory with
  | some d => d
  | none =>
    match parent c.program.toList with
    | [] => "."
    | cs => String.ofList cs

/-- The command of a text: its first word is the program. -/
def parse (s : String) : Except EngineError EngineCommand :=
  match Text.commandWords s with
  | [] => .error .emptyCommand
  | program :: arguments =>
    if program.isEmpty then .error .emptyCommand else .ok ⟨program, arguments, none, 1⟩

def argumentsAt (c : EngineCommand) (level : Nat) : List String :=
  c.arguments ++ ["-level", toString level]

end EngineCommand

/-- Where processes run. A process is known by a number, and every request may fail. -/
structure Host (σ : Type) where
  /-- Starts a program with arguments in a directory. -/
  start (program : String) (arguments : List String) (directory : String) : σ → Option Nat × σ
  /-- Writes a line to a process; says whether it could be written. -/
  send (process : Nat) (line : String) : σ → Bool × σ
  /-- Drops what the process has written and nobody has read. -/
  discard (process : Nat) : σ → σ
  /-- The lines that the process writes from now on, until it ends. -/
  receive (process : Nat) : σ → List String × σ
  stop (process : Nat) : σ → σ

structure Running where
  process : Nat
  level : Nat
  deriving DecidableEq, Repr

structure Session (σ : Type) where
  running : Option Running
  host : σ

namespace Session

variable {σ : Type}

/-- Writes lines to a process up to the first that cannot be written. -/
def sendAll (host : Host σ) (process : Nat) : List String → σ → Bool × σ
  | [], st => (true, st)
  | line :: lines, st =>
    match host.send process line st with
    | (true, st) => sendAll host process lines st
    | (false, st) => (false, st)

def launch (host : Host σ) (command : EngineCommand) (level : Nat) (st : σ) : Option Running × σ :=
  match host.start command.program (command.argumentsAt level) command.directory st with
  | (none, st) => (none, st)
  | (some process, st) =>
    match sendAll host process ["post", "cores " ++ toString command.cores] st with
    | (true, st) => (some ⟨process, level⟩, st)
    | (false, st) => (none, host.stop process st)

def close (host : Host σ) (s : Session σ) : Session σ :=
  match s.running with
  | none => s
  | some r => ⟨none, host.stop r.process s.host⟩

/-- A process for a level: the one that runs, if it is for this level, or else a new one. -/
def ensure (host : Host σ) (command : EngineCommand) (level : Nat) (s : Session σ) :
    Option Running × Session σ :=
  match s.running with
  | some r =>
    if r.level = level then (some r, s)
    else
      let (started, st) := launch host command level (s.close host).host
      (started, ⟨started, st⟩)
  | none =>
    let (started, st) := launch host command level s.host
    (started, ⟨started, st⟩)

def question (p : Position) : List String := ["setboard " ++ p.setboard, "analyze"]

/-- Searches a position. When no result can be read the process is stopped; a result that is not
valid is no reason to stop it. -/
def search (host : Host σ) (command : EngineCommand) (p : Position) (level : Nat)
    (s : Session σ) : Except EngineError Evaluation × Session σ :=
  match s.ensure host command level with
  | (none, s) => (.error .io, s)
  | (some r, s) =>
    match sendAll host r.process (question p) (host.discard r.process s.host) with
    | (false, st) => (.error .io, { s with host := st })
    | (true, st) =>
      let (lines, st) := host.receive r.process st
      match ResultTable.result {} lines with
      | .error e => (.error e, (⟨some r, st⟩ : Session σ).close host)
      | .ok row => (Engine.ofRow p level row, { s with host := st })

end Session

def EngineCommand.engine (command : EngineCommand) (host : Host σ) : Engine (Session σ) where
  search p level s := s.search host command p level

end OthelloBook
