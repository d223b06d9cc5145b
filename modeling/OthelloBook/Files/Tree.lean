import OthelloBook.Text.Numeral

/-!
# Trees of files

Directories, files, programs and links by the names on the way to them, and two ways to follow a
path through them. `locate?` goes from directory to directory, as one who enters them; `spell?`
goes by the text of the path, where a step back takes away the last name, and needs a directory
only where the path ends.
-/
namespace OthelloBook

/-- The names on the way from the root to a file or a directory. -/
abbrev Way := List (List UInt8)

def Way.ofPath (path : List UInt8) : Way := Text.pieces 0x2f path

/-- The number of bytes of a way when it is written with a slash before each name. -/
def Way.size (w : Way) : Nat := w.foldl (fun n name => n + name.length + 1) 0

/-- What stands at the end of a way. A link stands for other names, from the root on or from the
directory that it is in. -/
inductive Entry where
  | directory
  | file
  | program
  | link (fromRoot : Bool) (names : Way)
  deriving DecidableEq, Repr

/-- A tree of files: its entries, the directories in which new files are made, and the directory
where a path begins that has no slash in front. -/
structure FileTree where
  entries : List (Way × Entry)
  writable : List Way
  current : Way
  deriving Repr

namespace FileTree

/-- How a name of a path is taken: it stays, goes back, or goes on. -/
inductive Step where
  | stay | back | on
  deriving DecidableEq, Repr

def Step.of (name : List UInt8) : Step :=
  if name = [] || name = Text.utf8 "." then .stay
  else if name = Text.utf8 ".." then .back
  else .on

def entry? (t : FileTree) (w : Way) : Option Entry :=
  if w = [] then some .directory else t.entries.lookup w

def isDirectory (t : FileTree) (w : Way) : Bool := t.entry? w = some .directory

def withFile (t : FileTree) (w : Way) : FileTree := { t with entries := (w, .file) :: t.entries }

def longestName : Nat := 255

/-! ## From directory to directory -/

/-- Follows names from a directory, over at most so many links. -/
def follow? (t : FileTree) (links : Nat) (w : Way) : Way → Option Way
  | [] => some w
  | name :: rest =>
    match Step.of name with
    | .stay => t.follow? links w rest
    | .back => t.follow? links w.dropLast rest
    | .on =>
      match t.entry? (w ++ [name]) with
      | some .directory => t.follow? links (w ++ [name]) rest
      | some (.link fromRoot names) =>
        match links with
        | 0 => none
        | links + 1 => t.follow? links (if fromRoot then [] else w) (names ++ rest)
      | some _ => if rest = [] then some (w ++ [name]) else none
      | none => none
  termination_by names => (links, names.length)

def mostLinks : Nat := 40

/-- A path has fewer bytes than this. -/
def pathLimit : Nat := 4096

/-- Where a path leads that begins in a directory; an empty one leads nowhere. -/
def locate? (t : FileTree) (start : Way) (path : List UInt8) : Option Way :=
  if path = [] || path.length ≥ pathLimit then none
  else t.follow? mostLinks (if path.head? = some 0x2f then [] else start) (Way.ofPath path)

def has (t : FileTree) (path : List UInt8) : Bool := (t.locate? t.current path).isSome

def directory? (t : FileTree) (path : List UInt8) : Option Way :=
  (t.locate? t.current path).filter t.isDirectory

/-- The directories in which a program is looked for by its name alone. -/
def programPlaces : List String :=
  ["/usr/local/sbin", "/usr/local/bin", "/usr/sbin", "/usr/bin", "/sbin", "/bin"]

/-- Whether a path leads from a directory to a program. A name without a slash is looked for in the
places of programs. -/
def hasProgram (t : FileTree) (start : Way) (path : List UInt8) : Bool :=
  let isProgram (p : List UInt8) : Bool :=
    (t.locate? start p).any fun w => t.entry? w = some .program
  if path.contains 0x2f then isProgram path
  else path ≠ [] && programPlaces.any fun place => isProgram (Text.utf8 place ++ 0x2f :: path)

/-! ## By the text -/

/-- Whether a way goes on after something that is no directory. -/
def isBlocked (t : FileTree) (w : Way) : Bool :=
  (List.range (w.length + 1)).any fun n =>
    match t.entry? (w.take n) with
    | none => false
    | some e => e ≠ .directory

/-- Follows names by their text, over at most so many links, as long as the way is shorter than a
bound. A name that is not there is taken as it is. -/
def spell? (t : FileTree) (bound : Nat) (links : Nat) (w : Way) : Way → Option Way
  | [] => some w
  | name :: rest =>
    match Step.of name with
    | .stay => t.spell? bound links w rest
    | .back => t.spell? bound links w.dropLast rest
    | .on =>
      if Way.size (w ++ [name]) ≥ bound || t.isBlocked w then none
      else if t.isDirectory w && name.length > longestName then none
      else
        match t.entry? (w ++ [name]) with
        | some (.link fromRoot names) =>
          match links with
          | 0 => none
          | links + 1 => t.spell? bound links (if fromRoot then [] else w) (names ++ rest)
        | _ => t.spell? bound links (w ++ [name]) rest
  termination_by names => (links, names.length)

end FileTree
end OthelloBook
