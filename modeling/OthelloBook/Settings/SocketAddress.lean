import OthelloBook.Text.Numeral

/-!
# Socket addresses

The address at which a server listens: four decimal numbers, or eight numbers in base sixteen
between brackets, of which a run of zeros may be left out, and the number of an endpoint after a
colon. In the text of an address the longest run of zeros is left out.
-/
namespace OthelloBook

inductive SocketAddress where
  | v4 (octets : List Nat) (endpoint : Nat)
  | v6 (groups : List Nat) (zone endpoint : Nat)
  deriving DecidableEq, Repr

namespace SocketAddress

def decimal? (max : Nat) (cs : List Char) : Option Nat := (Text.digits? 10 cs).filter (· ≤ max)

/-- One of the four numbers; it has no leading zero. -/
def octet? (cs : List Char) : Option Nat :=
  if cs.length > 3 ∨ (cs.length > 1 ∧ cs.head? = some '0') then none else decimal? 255 cs

def octets? (cs : List Char) : Option (List Nat) :=
  let parts := Text.pieces '.' cs
  if parts.length = 4 then parts.mapM octet? else none

def group? (cs : List Char) : Option Nat := if cs.length > 4 then none else Text.digits? 16 cs

def octetGroups? (cs : List Char) : Option (List Nat) :=
  match octets? cs with
  | some [a, b, c, d] => some [256 * a + b, 256 * c + d]
  | _ => none

/-- Groups between colons, of which the last two may be written as four decimal numbers. -/
def groupsOf? : List (List Char) → Option (List Nat)
  | [] => some []
  | [last] => ((group? last).map fun g => [g]).or (octetGroups? last)
  | cs :: rest => do return (← group? cs) :: (← groupsOf? rest)

def groupList? (cs : List Char) : Option (List Nat) :=
  if cs.isEmpty then some [] else groupsOf? (Text.pieces ':' cs)

/-- The text before the first pair of colons and the text after it. -/
def cutAtGap : List Char → Option (List Char × List Char)
  | ':' :: ':' :: rest => some ([], rest)
  | c :: cs => (cutAtGap cs).map fun (before, after) => (c :: before, after)
  | [] => none

/-- Eight groups. A gap stands for as many zeros as are missing, at least one, and before it all
groups are written in base sixteen. -/
def groups? (cs : List Char) : Option (List Nat) :=
  match cutAtGap cs with
  | none => (groupList? cs).filter fun gs => gs.length = 8
  | some (before, after) => do
    let head ← groupList? before
    let tail ← groupList? after
    if before.contains '.' ∨ head.length + tail.length > 7 then none
    else some (head ++ List.replicate (8 - head.length - tail.length) 0 ++ tail)

/-- The number after the last colon, and the text before it. -/
def endpoint? (cs : List Char) : Option (List Char × Nat) := do
  let (endpoint, before) := Text.cutAt ':' cs.reverse
  return ((← before).reverse, ← decimal? 65535 endpoint.reverse)

def parse? (s : String) : Option SocketAddress := do
  let (address, endpoint) ← endpoint? s.toList
  match address with
  | '[' :: rest =>
    if rest.getLast? = some ']' then
      let (address, zone) := Text.cutAt '%' rest.dropLast
      let zone ←
        match zone with
        | none => some 0
        | some z => decimal? (1 <<< 32 - 1) z
      return .v6 (← groups? address) zone endpoint
    else none
  | _ => return .v4 (← octets? address) endpoint

def dotted (octets : List Nat) : String := ".".intercalate (octets.map toString)

def colonned (groups : List Nat) : String :=
  ":".intercalate (groups.map fun g => String.ofList (Text.hex g))

def zeroRun (gs : List Nat) : Nat := (gs.takeWhile (· = 0)).length

/-- The place and length of the first longest run of zeros. -/
def longestRun (gs : List Nat) : Nat × Nat :=
  (List.range gs.length).foldl (fun best i =>
    let n := zeroRun (gs.drop i)
    if best.2 < n then (i, n) else best) (0, 0)

def groupsText (gs : List Nat) : String :=
  match gs with
  | [0, 0, 0, 0, 0, 0xffff, a, b] => "::ffff:" ++ dotted [a / 256, a % 256, b / 256, b % 256]
  | _ =>
    let (start, n) := longestRun gs
    if n < 2 then colonned gs
    else colonned (gs.take start) ++ "::" ++ colonned (gs.drop (start + n))

def text : SocketAddress → String
  | .v4 octets endpoint => dotted octets ++ ":" ++ toString endpoint
  | .v6 groups zone endpoint =>
    "[" ++ groupsText groups ++ (if zone = 0 then "" else "%" ++ toString zone) ++ "]:" ++
      toString endpoint

end SocketAddress
end OthelloBook
