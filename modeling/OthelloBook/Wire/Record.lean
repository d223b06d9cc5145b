import OthelloBook.Error
import OthelloBook.Json.Draft

/-!
# Reading records

A record is read from an object by the names of its members or from an array by their order. The
members are read as they come in the text; one that comes twice or does not come is a mistake, and
unknown ones are passed over. Each reader stops at the first mistake.
-/
namespace OthelloBook.Wire

open Json (Draft)

/-- Why a text is not the message that it should be: it has another form, or its data are not
accepted by the book. -/
inductive DecodeError where
  | malformed
  | refused (e : BookError)
  deriving DecidableEq

/-- Reads a draft in the order of its text. -/
abbrev Decoder (α : Type) := Draft → Except DecodeError α

def refuse (x : Except BookError α) : Except DecodeError α := x.mapError .refused

def readInt (low high : Int) : Decoder Int
  | .number (.int n) => if low ≤ n ∧ n ≤ high then .ok n else .error .malformed
  | _ => .error .malformed

def readNat (max : Nat) (d : Draft) : Except DecodeError Nat := (readInt 0 max d).map Int.toNat

def readString : Decoder String
  | .str (some s) => .ok s
  | _ => .error .malformed

/-- Every number is read as a float, but not one that is too large. -/
def readFloat : Decoder Float
  | .number (.int n) =>
    let x := n.natAbs.toUInt64.toFloat
    .ok (if n < 0 then -x else x)
  | .number (.real x) => .ok x
  | _ => .error .malformed

def readItems (item : Decoder α) : List Draft → Except DecodeError (List α)
  | [] => .ok []
  | d :: ds =>
    match item d with
    | .error e => .error e
    | .ok a => (readItems item ds).map (a :: ·)

def readList (item : Decoder α) : Decoder (List α)
  | .arr ds closed =>
    match readItems item ds with
    | .error e => .error e
    | .ok as => if closed then .ok as else .error .malformed
  | _ => .error .malformed

def readOption (item : Decoder α) : Decoder (Option α)
  | .null => .ok none
  | d => (item d).map some

/-- How the members of a record `α` are gathered in a state `σ`. -/
structure Record (σ α : Type) where
  names : List String
  start : σ
  /-- Reads the member of this place into the state. -/
  member : Nat → Draft → σ → Except DecodeError σ
  /-- The record, when no member is missing. -/
  finish : σ → Option α

namespace Record

/-- Reads the items of an array as the members of these places; there must be one for each. -/
def readPlaces (r : Record σ α) (place : Nat) : List Draft → σ → Except DecodeError σ
  | [], s => if place = r.names.length then .ok s else .error .malformed
  | d :: ds, s =>
    if place = r.names.length then .error .malformed
    else
      match r.member place d s with
      | .error e => .error e
      | .ok s => readPlaces r (place + 1) ds s

/-- Reads the members of an object, whose places so far are in `seen`. -/
def readMembers (r : Record σ α) (seen : List Nat) :
    List (Option String × Draft) → σ → Except DecodeError σ
  | [], s => .ok s
  | (none, _) :: _, _ => .error .malformed
  | (some k, d) :: rest, s =>
    match r.names.idxOf? k with
    | none => readMembers r seen rest s
    | some place =>
      if place ∈ seen then .error .malformed
      else
        match r.member place d s with
        | .error e => .error e
        | .ok s => readMembers r (place :: seen) rest s

def complete (r : Record σ α) (closed : Bool) (s : Except DecodeError σ) : Except DecodeError α :=
  match s with
  | .error e => .error e
  | .ok s =>
    match closed, r.finish s with
    | true, some a => .ok a
    | _, _ => .error .malformed

def read (r : Record σ α) : Decoder α
  | .arr ds closed => r.complete closed (r.readPlaces 0 ds r.start)
  | .obj ms closed => r.complete closed (r.readMembers [] ms r.start)
  | _ => .error .malformed

def single (name : String) (item : Decoder α) : Record (Option α) α where
  names := [name]
  start := none
  member _ d _ := (item d).map some
  finish := id

end Record

/-- Reads a whole text as a message; nothing may follow it. -/
def decodeText (read : Decoder α) (s : String) : Except DecodeError α :=
  let (d, atEnd) := Draft.ofText s
  match read d with
  | .error e => .error e
  | .ok a => if atEnd then .ok a else .error .malformed

end OthelloBook.Wire
