import OthelloBook.Engine.Process
import OthelloBook.Level
import OthelloBook.Service.Basic
import OthelloBook.Settings.Flags
import OthelloBook.Settings.SocketAddress

/-!
# Commands

What workers, those who seed the book, and the server are told by arguments.
-/
namespace OthelloBook

/-! ## Settings of workers -/

structure CommonSettings where
  serverUrl : String
  token : String
  engine : String
  workingDirectory : Option String
  cores : Option Nat
  pollMillis : Nat
  deriving DecidableEq, Repr

namespace CommonSettings

def command (s : CommonSettings) : Except EngineError EngineCommand :=
  (EngineCommand.parse s.engine).map fun c =>
    { c with workingDirectory := s.workingDirectory, cores := s.cores.getD 1 }

end CommonSettings

inductive ClientCommand where
  | learn (common : CommonSettings) (buildId : String) (heartbeatSecs idleSecs : Nat)
  | seed (common : CommonSettings) (discs level : Nat)
  deriving DecidableEq, Repr

namespace ClientCommand

/-- The version by which a worker introduces itself if it is not told another one. -/
def version : String := "0.1.0"

def commonFlags : List Flag :=
  [{ name := "server-url" },
    { name := "token", required := true },
    { name := "engine", required := true },
    .path "engine-working-dir",
    .large "cores",
    .large "poll-millis"]

def learnFlags : List Flag :=
  commonFlags ++ [{ name := "build-id" }, .large "heartbeat-secs", .large "idle-secs"]

def seedFlags : List Flag :=
  commonFlags ++
    [{ Flag.number "discs" 0 (1 <<< 32 - 1) with required := true }, .number "level" 0 255]

def common (given : Flags) : CommonSettings where
  serverUrl := given.text "server-url" "http://localhost:3000"
  token := given.text "token" ""
  engine := given.text "engine" ""
  workingDirectory := given.value? "engine-working-dir"
  cores := given.number? "cores"
  pollMillis := given.number "poll-millis" 500

def parse (args : List String) : Except UsageError ClientCommand :=
  match subcommand ["learn", "seed"] args with
  | .error e => .error e
  | .ok ("learn", rest) =>
    (Flags.read learnFlags rest).map fun given =>
      .learn (common given) (given.text "build-id" version) (given.number "heartbeat-secs" 60)
        (given.number "idle-secs" 10)
  | .ok (_, rest) =>
    (Flags.read seedFlags rest).map fun given =>
      .seed (common given) (given.number "discs" 0) (given.number "level" Level.minimum)

end ClientCommand

/-! ## Settings of the server -/

structure DatabaseSettings where
  url : String := "sqlite://book.db"
  maxConnections : Nat := 8
  deriving DecidableEq, Repr

/-- How the server works; times are in seconds. -/
structure ServeSettings where
  listen : SocketAddress
  database : DatabaseSettings
  token : String
  statsUser : String
  statsPassword : String
  inactivity : Nat
  prune : Nat
  rescan : Nat
  deriving DecidableEq, Repr

namespace ServeSettings

def credentials (s : ServeSettings) : Credentials := ⟨s.token, s.statsUser, s.statsPassword⟩

def timing (s : ServeSettings) : Timing := ⟨1000 * s.inactivity, 1000 * s.prune, 1000 * s.rescan⟩

end ServeSettings

inductive ServerCommand where
  | serve (s : ServeSettings)
  | stats (d : DatabaseSettings)
  deriving DecidableEq, Repr

namespace ServerCommand

def maxWord : Nat := 1 <<< 32 - 1

def databaseFlags : List Flag :=
  [{ name := "database-url" }, .number "max-connections" 0 maxWord]

def anywhere : SocketAddress := .v4 [0, 0, 0, 0] 3000

def listenFlag : Flag where
  name := "listen"
  check v := if (SocketAddress.parse? v).isSome then .ok () else .error .valueValidation

def serveFlags : List Flag :=
  listenFlag :: databaseFlags ++
    [{ name := "token", required := true },
      { name := "stats-user" },
      { name := "stats-password", required := true },
      .number "inactivity-timeout-secs" 1 maxWord,
      .number "prune-interval-secs" 1 maxWord,
      .number "rescan-interval-secs" 1 maxWord]

def database (given : Flags) : DatabaseSettings where
  url := given.text "database-url" "sqlite://book.db"
  maxConnections := given.number "max-connections" 8

def serveSettings (given : Flags) : ServeSettings where
  listen := ((given.value? "listen").bind SocketAddress.parse?).getD anywhere
  database := database given
  token := given.text "token" ""
  statsUser := given.text "stats-user" "admin"
  statsPassword := given.text "stats-password" ""
  inactivity := given.number "inactivity-timeout-secs" 300
  prune := given.number "prune-interval-secs" 30
  rescan := given.number "rescan-interval-secs" 60

def parse (args : List String) : Except UsageError ServerCommand :=
  match subcommand ["serve", "stats"] args with
  | .error e => .error e
  | .ok ("serve", rest) => (Flags.read serveFlags rest).map fun given => .serve (serveSettings given)
  | .ok (_, rest) => (Flags.read databaseFlags rest).map fun given => .stats (database given)

end ServerCommand

end OthelloBook
