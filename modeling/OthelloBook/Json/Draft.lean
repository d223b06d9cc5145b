import OthelloBook.Json.Number
import OthelloBook.Json.Value

/-!
# JSON texts as far as they can be read

Whoever reads a JSON text for a purpose meets its values one after the other and may stop at the
first that does not suit, before a later mistake in the text is met. A draft keeps this order: it
is the value of a text up to the first mistake, where it is cut. Every value is a draft without a
cut (`Json.draft`).
-/
namespace OthelloBook.Json

/-- A value as far as it could be read. A string with half of a surrogate pair has no text, and
an array or object is closed only if its last bracket was reached without a mistake. -/
inductive Draft where
  | cut
  | null
  | bool (b : Bool)
  | number (n : Number)
  | str (s : Option String)
  | arr (items : List Draft) (closed : Bool)
  | obj (members : List (Option String × Draft)) (closed : Bool)

namespace Draft

def isWhole : Draft → Bool
  | .cut => false
  | .arr _ closed => closed
  | .obj _ closed => closed
  | _ => true

/-- The four blanks of the format. -/
def isSpace (c : Char) : Bool := c = ' ' || c = '\n' || c = '\t' || c = '\r'

def skipSpace (cs : List Char) : List Char := cs.dropWhile isSpace

inductive Piece where
  | char (c : Char)
  | unit (n : Nat)
  deriving DecidableEq, Repr

def unit? (cs : List Char) : Option Nat := Text.digits? 16 cs

def shortEscape? (c : Char) : Option Char :=
  if c = '"' || c = '\\' || c = '/' then some c
  else if c = 'b' then some '\x08'
  else if c = 'f' then some '\x0c'
  else if c = 'n' then some '\n'
  else if c = 'r' then some '\r'
  else if c = 't' then some '\t'
  else none

def pieces? : List Char → Option (List Piece × List Char)
  | [] => none
  | '"' :: cs => some ([], cs)
  | '\\' :: 'u' :: a :: b :: c :: d :: cs =>
    match unit? [a, b, c, d] with
    | none => none
    | some n => (pieces? cs).map fun (ps, rest) => (.unit n :: ps, rest)
  | '\\' :: c :: cs =>
    match shortEscape? c with
    | none => none
    | some e => (pieces? cs).map fun (ps, rest) => (.char e :: ps, rest)
  | c :: cs =>
    if c.toNat < 0x20 || c = '\\' then none
    else (pieces? cs).map fun (ps, rest) => (.char c :: ps, rest)

def isHighSurrogate (n : Nat) : Bool := 0xd800 ≤ n && n < 0xdc00

def isLowSurrogate (n : Nat) : Bool := 0xdc00 ≤ n && n < 0xe000

/-- The characters of a string: a high surrogate has to be followed by a low one. -/
def assemble? : List Piece → Option (List Char)
  | [] => some []
  | .char c :: ps => (assemble? ps).map (c :: ·)
  | .unit n :: ps =>
    if isHighSurrogate n then
      match ps with
      | .unit m :: qs =>
        if isLowSurrogate m then
          (assemble? qs).map (Char.ofNat (0x10000 + 0x400 * (n - 0xd800) + (m - 0xdc00)) :: ·)
        else none
      | _ => none
    else if isLowSurrogate n then none
    else (assemble? ps).map (Char.ofNat n :: ·)

def string? (cs : List Char) : Option (Option String × List Char) :=
  (pieces? cs).map fun (ps, rest) => ((assemble? ps).map String.ofList, rest)

/-- The rest of a text after a word that it has to begin with. -/
def after? : List Char → List Char → Option (List Char)
  | [], cs => some cs
  | w :: ws, c :: cs => if w = c then after? ws cs else none
  | _ :: _, [] => none

/-- A literal name, or a cut where the text says something else. -/
def literal (word : String) (d : Draft) (cs : List Char) : Draft × List Char :=
  match after? word.toList cs with
  | some rest => (d, rest)
  | none => (.cut, cs)

mutual

def value : Nat → List Char → Draft × List Char
  | 0, cs => (.cut, cs)
  | fuel + 1, cs =>
    match skipSpace cs with
    | '"' :: r =>
      match string? r with
      | some (s, rest) => (.str s, rest)
      | none => (.cut, r)
    | '[' :: r =>
      match skipSpace r with
      | ']' :: rest => (.arr [] true, rest)
      | r =>
        let (items, closed, rest) := items fuel r
        (.arr items closed, rest)
    | '\x7b' :: r =>
      match skipSpace r with
      | '\x7d' :: rest => (.obj [] true, rest)
      | r =>
        let (members, closed, rest) := members fuel r
        (.obj members closed, rest)
    | 'n' :: r => literal "ull" .null r
    | 't' :: r => literal "rue" (.bool true) r
    | 'f' :: r => literal "alse" (.bool false) r
    | r =>
      match Literal.read? r with
      | some (l, rest) => (.number l.number, rest)
      | none => (.cut, r)

def items : Nat → List Char → List Draft × Bool × List Char
  | 0, cs => ([], false, cs)
  | fuel + 1, cs =>
    let (d, rest) := value fuel cs
    if !d.isWhole then ([d], false, rest)
    else
      match skipSpace rest with
      | ',' :: r =>
        let (ds, closed, rest) := items fuel r
        (d :: ds, closed, rest)
      | ']' :: r => ([d], true, r)
      | r => ([d], false, r)

def members : Nat → List Char → List (Option String × Draft) × Bool × List Char
  | 0, cs => ([], false, cs)
  | fuel + 1, cs =>
    match skipSpace cs with
    | '"' :: r =>
      match string? r with
      | none => ([], false, r)
      | some (k, r) =>
        match skipSpace r with
        | ':' :: r =>
          let (d, rest) := value fuel r
          if !d.isWhole then ([(k, d)], false, rest)
          else
            match skipSpace rest with
            | ',' :: r =>
              let (ms, closed, rest) := members fuel r
              ((k, d) :: ms, closed, rest)
            | '\x7d' :: r => ([(k, d)], true, r)
            | r => ([(k, d)], false, r)
        | r => ([(k, .cut)], false, r)
    | r => ([], false, r)

end

/-- The draft of a whole text, and whether nothing but blanks follows it. Each step of the reader
takes a character after at most one step without, so twice the length suffices. -/
def ofText (s : String) : Draft × Bool :=
  let cs := s.toList
  let (d, rest) := value (2 * cs.length + 2) cs
  (d, (skipSpace rest).isEmpty)

end Draft

mutual

def draft : Json → Draft
  | .null => .null
  | .bool b => .bool b
  | .int n => .number (.int n)
  | .real x => .number (.real x)
  | .str s => .str (some s)
  | .arr items => .arr (itemDrafts items) true
  | .obj members => .obj (memberDrafts members) true

def itemDrafts : List Json → List Draft
  | [] => []
  | v :: vs => v.draft :: itemDrafts vs

def memberDrafts : List (String × Json) → List (Option String × Draft)
  | [] => []
  | (k, v) :: rest => (some k, v.draft) :: memberDrafts rest

end

end OthelloBook.Json
