import OthelloBook.Files.Tree
import OthelloBook.Store.Address

/-!
# Opening databases

What the text of an address stands for, and whether a new database can be made there.
-/
namespace OthelloBook
namespace DatabaseAddress

/-- Reads the name of an address. With options about files it is taken as it is, up to a zero byte;
otherwise it may be a locator, and a zero byte is refused. -/
def withName? (a : DatabaseAddress) : Option DatabaseAddress :=
  let lead := Text.utf8 "file:"
  if a.immutable || a.fileSystem.isSome then
    some { a with
      isLocator := true
      name := a.name.takeWhile (· ≠ 0)
      fileSystem := a.fileSystem.map (·.takeWhile (· ≠ 0)) }
  else if a.name.contains 0 then none
  else if lead.isPrefixOf a.name then a.withLocator? (a.name.drop lead.length)
  else some a

def memoryName : String := ":memory:"

/-- The address that a text stands for. What is in memory under no other name is shared. -/
def parse? (s : String) : Option DatabaseAddress := do
  let (path, options) := Text.cutAt '?' (withoutScheme s.toList)
  let name := Text.percentDecode (Text.utf8 (String.ofList path))
  let a : DatabaseAddress :=
    if path = memoryName.toList then
      { name := Text.utf8 "file:memory", inMemory := true, shared := true }
    else { name }
  if !Text.isUtf8 name then none
  else
    let a ← (Text.queryPairs (options.getD [])).foldlM
      (fun a (name, value) => a.withOption? name value) a
    a.withName?

def fileSystems : List String := ["unix", "unix-none", "unix-dotfile", "unix-excl", "memdb"]

def filesInMemory (a : DatabaseAddress) : Bool := a.fileSystem = some (Text.utf8 "memdb")

def isMemory (a : DatabaseAddress) : Bool := a.inMemory || a.name = Text.utf8 memoryName

/-- Whether a file in memory has a name under which it is shared: one that goes on after a slash in
either direction. -/
def hasSharedName (a : DatabaseAddress) : Bool :=
  (a.name.head? = some 0x2f || a.name.head? = some 0x5c) && a.name.length > 1

/-- Whether all connections see the same database. One without a name, or in memory, is seen by
its own connection only, unless it is shared. -/
def isCommon (a : DatabaseAddress) : Bool :=
  a.name ≠ [] &&
    if a.isMemory then a.shared && a.isLocator
    else if a.filesInMemory then a.shared || a.hasSharedName
    else true

/-- The name of the file that is written beside the database is longer by this. -/
def journalEnding : String := "-journal"

/-- The greatest size of the full path of a file, with the ending of its journal. -/
def greatestSize (a : DatabaseAddress) : Nat := if a.filesInMemory then 1024 else 512

def hasRoom (a : DatabaseAddress) (size : Nat) : Bool := size + journalEnding.length ≤ a.greatestSize

def mostLinks : Nat := 201

/-- Where the file is: its path is followed by its text. -/
def way? (a : DatabaseAddress) (t : FileTree) : Option Way :=
  t.spell? a.greatestSize mostLinks (if a.name.head? = some 0x2f then [] else t.current)
    (Way.ofPath a.name)

/-- Whether a new file can be made at the end of a way, and a journal beside it. -/
def canMake (a : DatabaseAddress) (t : FileTree) (w : Way) : Bool :=
  a.hasRoom w.size && (t.entry? w).isNone && t.writable.contains w.dropLast &&
    w.getLast?.all fun name => name.length + journalEnding.length ≤ FileTree.longestName

/-- Whether a file for a new database can be made and filled, and then, if need be, found again: its
path may have gone through its own name. -/
def canFill (a : DatabaseAddress) (t : FileTree) (again : Bool) : Bool :=
  !a.immutable &&
    if a.filesInMemory then a.hasRoom a.name.length
    else a.access = some .create && a.pattern.all t.has &&
      (a.way? t).any fun w =>
        a.canMake t w && (!again || a.way? (t.withFile w) = some w)

/-- Whether a new database can be made at an address, and used over this many connections in
turn. -/
def canOpen (a : DatabaseAddress) (t : FileTree) (connections : Nat) : Bool :=
  a.fileSystem.all (fun name => fileSystems.any fun s => name = Text.utf8 s) &&
    a.access ≠ some .read &&
    (a.isMemory || a.name = [] || a.canFill t (connections > 1)) &&
    (connections = 1 || connections > 1 && a.isCommon)

end DatabaseAddress

def FileTree.canHold (t : FileTree) (url : String) (connections : Nat) : Bool :=
  (DatabaseAddress.parse? url).any fun a => a.canOpen t connections

end OthelloBook
