import OthelloBook.Text.Numeral

/-!
# JSON values

The values that are sent, and their compact text.
-/
namespace OthelloBook

/-! ## Shortest decimals

The fewest digits that still name a float. A float is a number m · 2^q, and all reals between the
middles of its neighbours are read back as it, the ends included when m is even. For one digit,
two digits and so on the two decimals next to the float are tried on exact integers; the first
that lies between the ends is taken, the nearer where both do. -/

namespace Decimal

/-- The significand and the binary exponent of a finite positive float. -/
def binary (x : Float) : Nat × Int :=
  let bits : Nat := x.toBits.toNat % (1 <<< 63)
  let fraction : Nat := bits % (1 <<< 52)
  let exponent : Nat := bits >>> 52
  if exponent = 0 then (fraction, -1074) else (fraction + 1 <<< 52, (exponent : Int) - 1075)

/-- The reals that are read back as a float, in units of 2^`exponent`: the float itself, the ends
below and above it, and whether the ends belong to them. -/
structure Interval where
  low : Nat
  value : Nat
  high : Nat
  exponent : Int
  closed : Bool

/-- Below a power of two the next float is half as far away. -/
def interval (x : Float) : Interval :=
  let (m, q) := binary x
  let gapBelow := if m = 1 <<< 52 ∧ -1074 < q then 1 else 2
  ⟨4 * m - gapBelow, 4 * m, 4 * m + 2, q - 2, m % 2 = 0⟩

def Interval.holds (i : Interval) (scale n : Nat) : Bool :=
  let low := i.low * scale
  let high := i.high * scale
  (low < n && n < high) || (i.closed && (n = low || n = high))

/-- A decimal: the digits as a number, and the power of ten of the last one. -/
structure Digits where
  significand : Nat
  exponent : Int
  deriving DecidableEq, Repr

/-- The decimal nearest to the value, among the multiples of 10^`e` inside the interval. -/
def onGrid? (i : Interval) (e : Int) : Option Digits :=
  let scale := Nat.pow 10 (-e).toNat <<< i.exponent.toNat
  let unit := Nat.pow 10 e.toNat <<< (-i.exponent).toNat
  let below := i.value * scale / unit
  let fits (n : Nat) : Bool := 0 < n && i.holds scale (n * unit)
  let lowerGap := i.value * scale - below * unit
  let upperGap := (below + 1) * unit - i.value * scale
  if fits below && (!fits (below + 1) || lowerGap ≤ upperGap) then some ⟨below, e⟩
  else if fits (below + 1) then some ⟨below + 1, e⟩
  else none

/-- The first hit when the grid is made finer ten times at each step. -/
def firstOnGrid (i : Interval) : Nat → Int → Digits
  | 0, e => ⟨i.value, e⟩
  | n + 1, e =>
    match onGrid? i e with
    | some d => d
    | none => firstOnGrid i n (e - 1)

/-- The shortest decimal of a finite positive float; no float has digits above 10^308, and none
needs more than 17 of them. -/
def shortest (x : Float) : Digits := firstOnGrid (interval x) 700 309

def Digits.trim : Nat → Digits → Digits
  | 0, d => d
  | n + 1, d =>
    if d.significand ≠ 0 ∧ d.significand % 10 = 0 then
      trim n ⟨d.significand / 10, d.exponent + 1⟩
    else d

/-- A decimal with a point, or with an exponent where it has more than sixteen places before the
point or more than four zeros after it. -/
def Digits.text (d : Digits) : List Char :=
  let ds := Nat.toDigits 10 d.significand
  let point : Int := ds.length + d.exponent
  if 0 ≤ d.exponent ∧ point ≤ 16 then
    ds ++ List.replicate d.exponent.toNat '0' ++ ['.', '0']
  else if 0 < point ∧ point ≤ 16 then
    ds.take point.toNat ++ '.' :: ds.drop point.toNat
  else if -5 < point ∧ point ≤ 0 then
    ['0', '.'] ++ List.replicate (-point).toNat '0' ++ ds
  else
    let exponent := (toString (point - 1)).toList
    match ds with
    | [d] => d :: 'e' :: exponent
    | d :: rest => d :: '.' :: rest ++ 'e' :: exponent
    | [] => []

/-- A finite float as text: the fewest digits that read back, always with a fraction or an
exponent. -/
def text (x : Float) : String :=
  let sign := if x.toBits >>> 63 = 1 then ['-'] else []
  let magnitude :=
    if x == 0 then ['0', '.', '0'] else ((shortest x.abs).trim 20).text
  String.ofList (sign ++ magnitude)

end Decimal

/-! ## Values and their texts -/

inductive Json where
  | null
  | bool (b : Bool)
  | int (n : Int)
  | real (x : Float)
  | str (s : String)
  | arr (items : List Json)
  | obj (members : List (String × Json))

namespace Json

def nat (n : Nat) : Json := .int n

def option (f : α → Json) : Option α → Json
  | none => .null
  | some a => f a

/-- One character of a string; quotes, backslashes and controls are escaped. -/
def escapedChar (c : Char) : List Char :=
  if c = '"' then ['\\', '"']
  else if c = '\\' then ['\\', '\\']
  else if c = '\n' then ['\\', 'n']
  else if c = '\r' then ['\\', 'r']
  else if c = '\t' then ['\\', 't']
  else if c.toNat < 0x20 then ['\\', 'u'] ++ Text.hexFixed 4 c.toNat
  else [c]

def quoted (s : String) : List Char := '"' :: s.toList.flatMap escapedChar ++ ['"']

mutual

def chars : Json → List Char
  | .null => "null".toList
  | .bool true => "true".toList
  | .bool false => "false".toList
  | .int n => (toString n).toList
  | .real x => (Decimal.text x).toList
  | .str s => quoted s
  | .arr items => '[' :: itemChars items
  | .obj members => '\x7b' :: memberChars members

def itemChars : List Json → List Char
  | [] => [']']
  | [v] => chars v ++ [']']
  | v :: vs => chars v ++ ',' :: itemChars vs

def memberChars : List (String × Json) → List Char
  | [] => ['\x7d']
  | [(k, v)] => quoted k ++ ':' :: chars v ++ ['\x7d']
  | (k, v) :: rest => quoted k ++ ':' :: chars v ++ ',' :: memberChars rest

end

def text (v : Json) : String := String.ofList v.chars

end Json

end OthelloBook
