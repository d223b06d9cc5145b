import OthelloBook.Scheduler.Basic
import OthelloBook.Text.Numeral
import OthelloBook.Text.Words
import OthelloBook.Wire.Decode

/-!
# Requests and answers

What comes to the server and goes from it, and how the parts of a request are read.
-/
namespace OthelloBook

/-! ## Media types

The kind of a message body: two names with a slash between them, and parameters after semicolons. -/

namespace MediaType

def isToken (c : Char) : Bool := c.isAlphanum || "!#$%&\x27*+-.^_\x60|~".toList.contains c

/-- The characters of a quoted value, of which only the first may be a quote. -/
def isQuoted (c : Char) : Bool := 0x20 ≤ c.toNat && c.toNat ≠ 0x7f

def afterQuoted? : List Char → Option (List Char)
  | [] => none
  | c :: cs =>
    if isQuoted c then
      match cs.dropWhile fun d => isQuoted d && d ≠ '"' with
      | '"' :: rest => some rest
      | _ => none
    else none

def token (cs : List Char) : List Char × List Char := cs.span isToken

/-- Whether parameters follow each other as they should: each a name, an equals sign and a value,
with a semicolon before the next one. -/
def parametersOk : Nat → List Char → Bool
  | 0, _ => false
  | fuel + 1, cs =>
    match cs.dropWhile (· = ' ') with
    | [] => true
    | cs =>
      let (name, rest) := token cs
      if name.isEmpty then false
      else
        match rest with
        | '=' :: '"' :: quoted =>
          match (afterQuoted? quoted).map fun rest => rest.dropWhile (· = ' ') with
          | some [] => true
          | some (';' :: rest) => parametersOk fuel rest
          | _ => false
        | '=' :: rest =>
          let (value, rest) := token rest
          match rest with
          | [] => true
          | ';' :: rest => !value.isEmpty && parametersOk fuel rest
          | _ => false
        | _ => false

/-- The two names of a media type, in lower case, if its text is well formed. -/
def names? (s : String) : Option (List Char × List Char) :=
  let (kind, rest) := token s.toList
  match rest with
  | '/' :: rest =>
    let (sub, rest) := token rest
    let ok :=
      match rest with
      | [] => true
      | ';' :: rest => parametersOk (rest.length + 1) rest
      | _ => false
    if !kind.isEmpty && !sub.isEmpty && ok then
      some (kind.map Char.toLower, sub.map Char.toLower)
    else none
  | _ => none

/-- A name without its last part that begins with a plus sign, and that part. A plus sign at the
beginning of the name does not count. -/
def splitSuffix (sub : List Char) : List Char × Option (List Char) :=
  if (sub.drop 1).contains '+' then
    let ending := (sub.reverse.takeWhile (· ≠ '+')).reverse
    (sub.take (sub.length - ending.length - 1), some ending)
  else (sub, none)

def isJson (s : String) : Bool :=
  match names? s with
  | some (kind, sub) =>
    let (stem, ending) := splitSuffix sub
    kind = "application".toList && (stem = "json".toList || ending = some "json".toList)
  | none => false

end MediaType

/-! ## Requests -/

structure Request where
  method : String
  path : String
  query : Option String := none
  headers : List (String × String) := []
  body : String := ""
  deriving DecidableEq, Repr

namespace Request

def isScheme (c : Char) : Bool := c.isAlphanum || "+-.~".toList.contains c

/-- The path of a resource. A scheme and a host before it do not count, and a host alone stands
for its root. -/
def pathOf (cs : List Char) : List Char :=
  match cs.dropWhile isScheme with
  | ':' :: '/' :: '/' :: rest =>
    match rest.dropWhile (· ≠ '/') with
    | [] => ['/']
    | path => path
  | _ => cs

/-- A request for a target: a path, perhaps with a scheme and a host before it, with a query after
a question mark and a fragment, which is ignored, after a number sign. -/
def ofTarget (method target : String) (headers : List (String × String)) (body : String) : Request :=
  let (target, _) := Text.cutAt '#' target.toList
  let (path, query) := Text.cutAt '?' target
  ⟨method, String.ofList (pathOf path), query.map String.ofList, headers, body⟩

/-- The characters that a header may have to be read as text. -/
def isVisible (c : Char) : Bool := (0x20 ≤ c.toNat && c.toNat < 0x7f) || c = '\t'

/-- The first value of a header, unless it is not plain text. Names are read in either case. -/
def header? (r : Request) (name : String) : Option String :=
  match r.headers.find? fun h => lowerAscii h.1 = name with
  | some h => if h.2.toList.all isVisible then some h.2 else none
  | none => none

/-- The user and password of a request, joined by a colon, as bytes. -/
def credentials? (r : Request) : Option (List UInt8) := do
  let value ← r.header? "authorization"
  let scheme := "Basic ".toList
  if scheme.isPrefixOf value.toList then
    Text.base64? (Text.trim (value.toList.drop scheme.length))
  else none

/-- The body of a request, read as a message; its header must say that it is JSON. -/
def message? (r : Request) (read : Wire.Decoder α) : Option α :=
  if (r.header? "content-type").any MediaType.isJson then
    (Wire.decodeText read r.body).toOption
  else none

def queryValues (r : Request) (name : String) : List (List UInt8) :=
  (Text.queryPairs (r.query.getD "").toList).filterMap fun pair =>
    if pair.1 = Text.utf8 name then some pair.2 else none

end Request

inductive Content where
  | empty
  | json (v : Json)
  | text (s : String)

/-- An answer: a status, what it carries, and whether the asker has to prove who they are. -/
structure Answer where
  status : Nat
  content : Content := .empty
  challenge : Option String := none

end OthelloBook
