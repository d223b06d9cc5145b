import OthelloBook.Text.Numeral

/-!
# Numbers of a JSON text

A numeral of the format is read in two steps: its parts, by the grammar, and then its value. A
numeral without fraction and exponent that fits a word is an integer. All others are floats: the
leading digits that fit a word are the significand, the later ones count only by their place, and
the significand is scaled by a power of ten.
-/
namespace OthelloBook.Json

structure Literal where
  negative : Bool
  whole : List Char
  fraction : List Char
  /-- The sign and the digits after the exponent mark. -/
  exponent : Option (Bool × List Char)
  deriving DecidableEq, Repr

/-- The value of a numeral. A float that is too large for a word has none. -/
inductive Number where
  | int (n : Int)
  | real (x : Float)
  | huge

namespace Literal

def digits (cs : List Char) : List Char × List Char :=
  (cs.takeWhile Char.isDigit, cs.dropWhile Char.isDigit)

/-- The whole part: a single zero, or digits that do not start with one. -/
def readWhole? (cs : List Char) : Option (List Char × List Char) :=
  match digits cs with
  | ([], _) => none
  | ('0' :: _ :: _, _) => none
  | parts => some parts

/-- A fraction needs a digit after its point. -/
def readFraction? : List Char → Option (List Char × List Char)
  | '.' :: cs =>
    match digits cs with
    | ([], _) => none
    | parts => some parts
  | cs => some ([], cs)

def exponentSign : List Char → Bool × List Char
  | '-' :: cs => (true, cs)
  | '+' :: cs => (false, cs)
  | cs => (false, cs)

/-- An exponent needs a digit after its mark and sign. -/
def readExponent? (cs : List Char) : Option (Option (Bool × List Char) × List Char) :=
  match cs with
  | 'e' :: r | 'E' :: r =>
    let (negative, r) := exponentSign r
    match digits r with
    | ([], _) => none
    | (ds, rest) => some (some (negative, ds), rest)
  | _ => some (none, cs)

def read? (cs : List Char) : Option (Literal × List Char) := do
  let (negative, cs) := match cs with
    | '-' :: r => (true, r)
    | _ => (false, cs)
  let (whole, cs) ← readWhole? cs
  let (fraction, cs) ← readFraction? cs
  let (exponent, cs) ← readExponent? cs
  return (⟨negative, whole, fraction, exponent⟩, cs)

def maxWord : Nat := 1 <<< 64 - 1

/-- Appends digits to a significand as long as it fits a word, and counts those left over. -/
def accumulate (acc : Nat) : List Char → Nat × Nat
  | [] => (acc, 0)
  | c :: cs =>
    let next := 10 * acc + (c.toNat - '0'.toNat)
    if next ≤ maxWord then accumulate next cs else (acc, cs.length + 1)

/-- The greatest exponent that is read as written. -/
def maxExponent : Nat := 1 <<< 31 - 1

/-- The number after the exponent mark, if it is not out of all measure. -/
def writtenExponent? (l : Literal) : Option Int :=
  match l.exponent with
  | none => some 0
  | some (negative, ds) =>
    let n := ds.foldl (fun n c => 10 * n + (c.toNat - '0'.toNat)) 0
    if maxExponent < n then none else some (if negative then -(n : Int) else n)

def powerOfTen (n : Nat) : Float := Float.ofScientific 1 false n

/-- A float times a power of ten. Below the least power the division is made in steps. -/
def scale : Nat → Float → Int → Option Float
  | 0, x, _ => some x
  | fuel + 1, x, e =>
    if e.natAbs ≤ 308 then
      if 0 ≤ e then
        let y := x * powerOfTen e.natAbs
        if y.isInf then none else some y
      else some (x / powerOfTen e.natAbs)
    else if x == 0 then some x
    else if 0 ≤ e then none
    else scale fuel (x / powerOfTen 308) (e + 308)

/-- The value of a numeral with a fraction, an exponent or too many digits. Three steps bring any
word below the least float. -/
def real? (l : Literal) : Option Float :=
  let (acc, skipped) := accumulate 0 l.whole
  let (significand, dropped) := accumulate acc l.fraction
  let place : Int := skipped - (l.fraction.length - dropped : Nat)
  let magnitude? :=
    match l.writtenExponent? with
    | some e => scale 3 significand.toUInt64.toFloat (place + e)
    | none =>
      let upwards := l.exponent.any fun (e : Bool × List Char) => !e.1
      if significand ≠ 0 && upwards then none else some 0
  magnitude?.map fun x => if l.negative then -x else x

/-- The value of a numeral. Minus zero is a float, and so are integers beyond a word. -/
def number (l : Literal) : Number :=
  let (acc, skipped) := accumulate 0 l.whole
  let isInt := l.fraction.isEmpty && l.exponent.isNone && skipped = 0
  if isInt && !l.negative then .int acc
  else if isInt && 0 < acc && acc ≤ 1 <<< 63 then .int (-(acc : Int))
  else
    match l.real? with
    | some x => .real x
    | none => .huge

end Literal
end OthelloBook.Json
