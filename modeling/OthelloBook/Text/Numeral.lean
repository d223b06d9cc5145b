/-!
# Numerals

Numbers written in a base up to sixteen. A numeral may start with a plus sign, must have a digit,
and may have leading zeros; a numeral for a bounded type that exceeds its bound is refused. Bytes
are written with such digits as well, or in base 64.
-/
namespace OthelloBook.Text

def digitValue? (base : Nat) (c : Char) : Option Nat :=
  let v? :=
    if '0' ≤ c && c ≤ '9' then some (c.toNat - '0'.toNat)
    else if 'a' ≤ c && c ≤ 'f' then some (c.toNat - 'a'.toNat + 10)
    else if 'A' ≤ c && c ≤ 'F' then some (c.toNat - 'A'.toNat + 10)
    else none
  v?.filter (· < base)

/-- The number that follows `acc` when all further characters are digits. -/
def digitsFrom? (base : Nat) (acc : Nat) : List Char → Option Nat
  | [] => some acc
  | c :: cs =>
    match digitValue? base c with
    | none => none
    | some d => digitsFrom? base (base * acc + d) cs

/-- A number written with digits only, at least one. -/
def digits? (base : Nat) : List Char → Option Nat
  | [] => none
  | cs => digitsFrom? base 0 cs

def unsigned? (base : Nat) : List Char → Option Nat
  | '+' :: cs => digits? base cs
  | cs => digits? base cs

/-- A decimal number of at most `max`, with an optional plus sign. -/
def natUpTo? (max : Nat) (cs : List Char) : Option Nat := (unsigned? 10 cs).filter (· ≤ max)

/-- A decimal number from `-max - 1` to `max`, with an optional sign. -/
def intUpTo? (max : Nat) : List Char → Option Int
  | '-' :: cs => ((digits? 10 cs).filter (· ≤ max + 1)).map fun n => -(n : Int)
  | cs => (natUpTo? max cs).map Int.ofNat

def hexDigit (n : Nat) : Char :=
  if n < 10 then Char.ofNat ('0'.toNat + n) else Char.ofNat ('a'.toNat + (n - 10))

/-- The last `width` digits of a number in base sixteen. -/
def hexFixed : Nat → Nat → List Char
  | 0, _ => []
  | width + 1, n => hexFixed width (n / 16) ++ [hexDigit (n % 16)]

@[simp] theorem length_hexFixed (width n : Nat) : (hexFixed width n).length = width := by
  induction width generalizing n with
  | zero => rfl
  | succ width ih => simp [hexFixed, ih]

def hex (n : Nat) : List Char := Nat.toDigits 16 n

def hexBytes (bytes : List UInt8) : List Char := bytes.flatMap fun b => hexFixed 2 b.toNat

def bytesOfHex? : List Char → Option (List UInt8)
  | [] => some []
  | [_] => none
  | a :: b :: cs =>
    match digitValue? 16 a, digitValue? 16 b, bytesOfHex? cs with
    | some x, some y, some rest => some ((16 * x + y).toUInt8 :: rest)
    | _, _, _ => none

def alignRight (width : Nat) (s : String) : String :=
  String.ofList (List.replicate (width - s.length) ' ') ++ s

/-! ## Percent signs and query strings

Bytes that are written as a percent sign and two hexadecimal digits, and lists of named values
that are joined by `&`, in which a plus sign stands for a blank. -/

def hexByte? (b : UInt8) : Option Nat := digitValue? 16 (Char.ofNat b.toNat)

/-- Replaces each percent sign before two digits; any other one stands for itself. -/
def percentDecode : List UInt8 → List UInt8
  | 0x25 :: a :: b :: rest =>
    match hexByte? a, hexByte? b with
    | some x, some y => (16 * x + y).toUInt8 :: percentDecode rest
    | _, _ => 0x25 :: percentDecode (a :: b :: rest)
  | b :: rest => b :: percentDecode rest
  | [] => []

def utf8 (s : String) : List UInt8 := s.toUTF8.toList

def isUtf8 (bs : List UInt8) : Bool := (String.fromUTF8? ⟨bs.toArray⟩).isSome

def queryText (cs : List Char) : List UInt8 :=
  percentDecode ((utf8 (String.ofList cs)).map fun b => if b = 0x2b then 0x20 else b)

def pieces [DecidableEq α] (mark : α) : List α → List (List α)
  | [] => [[]]
  | c :: cs =>
    if c = mark then [] :: pieces mark cs
    else
      match pieces mark cs with
      | p :: ps => (c :: p) :: ps
      | [] => [[c]]

/-- The text before the first mark, and the text after it if there is one. -/
def cutAt [DecidableEq α] (mark : α) : List α → List α × Option (List α)
  | [] => ([], none)
  | c :: cs =>
    if c = mark then ([], some cs)
    else
      let (before, after) := cutAt mark cs
      (c :: before, after)

/-- The named values of a query. Empty pieces are passed over, and a piece without an equals sign
is a name with an empty value. -/
def queryPairs (cs : List Char) : List (List UInt8 × List UInt8) :=
  ((pieces '&' cs).filter fun p => !p.isEmpty).map fun p =>
    let (name, value) := cutAt '=' p
    (queryText name, queryText (value.getD []))

/-! ## Base 64

Bytes as characters of six bits each, in groups of four that stand for three bytes. The last group
is filled up with equals signs, and the bits that belong to no byte are zero. -/

def base64Value? (c : Char) : Option Nat :=
  if 'A' ≤ c && c ≤ 'Z' then some (c.toNat - 'A'.toNat)
  else if 'a' ≤ c && c ≤ 'z' then some (c.toNat - 'a'.toNat + 26)
  else if '0' ≤ c && c ≤ '9' then some (c.toNat - '0'.toNat + 52)
  else if c = '+' then some 62
  else if c = '/' then some 63
  else none

/-- The bytes of the last group that is filled up; the unused bits have to be zero. -/
def base64Tail? (a b c : Char) : Option (List UInt8) := do
  let x ← base64Value? a
  let y ← base64Value? b
  if c = '=' then
    if y % 16 = 0 then some [(4 * x + y / 16).toUInt8] else none
  else
    let z ← base64Value? c
    if z % 4 = 0 then some [(4 * x + y / 16).toUInt8, (16 * (y % 16) + z / 4).toUInt8] else none

def base64Group? (a b c d : Char) : Option (List UInt8) := do
  let n := 64 * (64 * (64 * (← base64Value? a) + (← base64Value? b)) + (← base64Value? c))
    + (← base64Value? d)
  return [(n / 65536).toUInt8, (n / 256 % 256).toUInt8, (n % 256).toUInt8]

def base64? : List Char → Option (List UInt8)
  | [] => some []
  | [a, b, c, '='] => base64Tail? a b c
  | a :: b :: c :: d :: rest => do
    let group ← base64Group? a b c d
    return group ++ (← base64? rest)
  | _ => none

end OthelloBook.Text
