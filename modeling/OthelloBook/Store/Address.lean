import OthelloBook.Text.Numeral

/-!
# Addresses of databases

Where a database is kept, and the options that an address can have.
-/
namespace OthelloBook

/-- What may be done to a database that is kept in a file, from the least to the most. -/
inductive FileAccess where
  | read | change | create
  deriving DecidableEq, Repr

def FileAccess.rank : FileAccess → Nat
  | read => 0
  | change => 1
  | create => 2

structure DatabaseAddress where
  /-- The path of a file, or nothing for a file without a name that is deleted after use. -/
  name : List UInt8
  /-- Whether the name was written as a locator, or has to be. -/
  isLocator : Bool := false
  /-- Whether it is kept in memory, whatever its name. -/
  inMemory : Bool := false
  /-- Whether connections share what they hold in memory. -/
  shared : Bool := false
  /-- What may be done to it; without one it must be in memory. -/
  access : Option FileAccess := some .create
  /-- Whether a file is taken never to change. -/
  immutable : Bool := false
  /-- The way in which files are used, if one is chosen. -/
  fileSystem : Option (List UInt8) := none
  /-- The path of a file whose owner and rights a new one gets. -/
  pattern : Option (List UInt8) := none
  deriving DecidableEq, Repr

namespace DatabaseAddress

/-- Drops a text from the beginning as often as it stands there, at most `n` times. -/
def dropLeading (lead : List Char) : Nat → List Char → List Char
  | 0, cs => cs
  | n + 1, cs => if lead.isPrefixOf cs then dropLeading lead n (cs.drop lead.length) else cs

def withoutScheme (cs : List Char) : List Char :=
  dropLeading "sqlite:".toList cs.length (dropLeading "sqlite://".toList cs.length cs)

def truth? (value : List UInt8) : Option Bool :=
  if ["true", "1"].any fun s => value = Text.utf8 s then some true
  else if ["false", "0"].any fun s => value = Text.utf8 s then some false
  else none

def withCache? (a : DatabaseAddress) (value : List UInt8) : Option DatabaseAddress :=
  if value = Text.utf8 "shared" then some { a with shared := true }
  else if value = Text.utf8 "private" then some { a with shared := false }
  else none

def withOption? (a : DatabaseAddress) (name value : List UInt8) : Option DatabaseAddress :=
  let is (s : String) (bs : List UInt8) : Bool := bs = Text.utf8 s
  if is "mode" name then
    if is "ro" value then some { a with access := some .read }
    else if is "rw" value || is "rwc" value then some a
    else if is "memory" value then some { a with inMemory := true, shared := true }
    else none
  else if is "cache" name then a.withCache? value
  else if is "immutable" name then (truth? value).map fun b => { a with immutable := b }
  else if is "vfs" name then some { a with fileSystem := some value }
  else none

/-! ## Locators of files

Names of databases that begin with `file:`. A locator has a host, a path and options of its own,
which follow other rules than those of the address that it stands in. -/

/-- A part of a locator, which ends where a zero byte is written. -/
def part (bs : List UInt8) : List UInt8 := (Text.percentDecode bs).takeWhile (· ≠ 0)

/-- The text of a locator after its host, which must be this machine. -/
def withoutHost? : List UInt8 → Option (List UInt8)
  | 0x2f :: 0x2f :: rest =>
    let (host, path) := rest.span (· ≠ 0x2f)
    if host = [] || host = Text.utf8 "localhost" then some path else none
  | bs => some bs

def locatorOptions (bs : List UInt8) : List (List UInt8 × List UInt8) :=
  ((Text.pieces 0x26 bs).map fun p =>
    let (name, value) := Text.cutAt 0x3d p
    (part name, part (value.getD []))).filter fun option => option.1 ≠ []

/-- Restricts the use of a database. No access can be asked for that goes beyond the one there is,
but one that is in memory may be taken out of it. -/
def withMode? (a : DatabaseAddress) (value : List UInt8) : Option DatabaseAddress :=
  let restrict (access : FileAccess) : Option DatabaseAddress :=
    if a.inMemory || a.access.any fun b => access.rank ≤ b.rank then
      some { a with access := some access, inMemory := false }
    else none
  if value = Text.utf8 "ro" then restrict .read
  else if value = Text.utf8 "rw" then restrict .change
  else if value = Text.utf8 "rwc" then restrict .create
  else if value = Text.utf8 "memory" then some { a with access := none, inMemory := true }
  else none

/-- An address with one option of a locator. Unknown ones do not matter. -/
def withLocatorOption? (a : DatabaseAddress) (name value : List UInt8) : Option DatabaseAddress :=
  if name = Text.utf8 "mode" then a.withMode? value
  else if name = Text.utf8 "cache" then a.withCache? value
  else if name = Text.utf8 "vfs" then some { a with fileSystem := some value }
  else some a

def leadingDigits (base : Nat) (cs : List Char) : List Char :=
  cs.takeWhile fun c => (Text.digitValue? base c).isSome

/-- The number at the beginning of a text: in base sixteen after `0x`, with at most eight digits
besides leading zeros. One that needs more than 31 bits counts as zero. -/
def leadingNumber (cs : List Char) : Nat :=
  let bounded (ds : List Char) : Nat :=
    ((Text.digitsFrom? 10 0 ds).filter (· < 1 <<< 31)).getD 0
  match cs with
  | '0' :: x :: ds =>
    let hex := leadingDigits 16 ds
    if (x = 'x' || x = 'X') && !hex.isEmpty then
      ((Text.digitsFrom? 16 0 hex).filter (· < 1 <<< 31)).getD 0
    else bounded (leadingDigits 10 cs)
  | _ => bounded (leadingDigits 10 cs)

/-- Whether the value of an option means yes: a word in either case, or a number whose last byte is
not zero. -/
def isYes (value : List UInt8) : Bool :=
  let cs := value.map fun b => Char.ofNat b.toNat
  if (cs.head?.map Char.isDigit).getD false then leadingNumber cs % 256 ≠ 0
  else ["on", "yes", "true"].contains (String.ofList (cs.map Char.toLower))

/-- Reads a name that is a locator. What follows a number sign does not count. The first value
counts that tells whether the file may change, or after which file it is made. -/
def withLocator? (a : DatabaseAddress) (bs : List UInt8) : Option DatabaseAddress := do
  let (path, query) := Text.cutAt 0x3f (Text.cutAt 0x23 (← withoutHost? bs)).1
  let options := (query.map locatorOptions).getD []
  let a ← options.foldlM (fun a (name, value) => a.withLocatorOption? name value) a
  return { a with
    name := part path
    isLocator := true
    immutable := (options.lookup (Text.utf8 "immutable")).any isYes
    pattern := options.lookup (Text.utf8 "modeof") }

end DatabaseAddress
end OthelloBook
