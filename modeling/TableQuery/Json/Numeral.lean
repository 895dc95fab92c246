import TableQuery.Json.Document
import TableQuery.Decimal.Numeral

/-!
# Reading JSON numbers

The value of a number literal. Its digits are collected, sign and point aside, into a significand of
64 bits for as long as they fit; the rest of the literal only moves the exponent. A number that is
no integer of 64 bits is the significand scaled by a power of ten in one floating point operation.
-/

namespace TableQuery.Json

/-- A number literal, taken apart. The exponent's digits come with whether it is negative. -/
structure Literal where
  negative : Bool
  whole : List Char
  fraction : Option (List Char)
  exponent : Option (Bool × List Char)

/-- The literal as written, up to the spelling of the exponent mark and its plus sign. -/
def Literal.chars (l : Literal) : List Char :=
  (if l.negative then ['-'] else []) ++ l.whole
    ++ (match l.fraction with | none => [] | some ds => '.' :: ds)
    ++ (match l.exponent with
        | none => []
        | some (below, ds) => 'e' :: (if below then ['-'] else []) ++ ds)

def significandLimit : Nat := UInt64.size

/-- Appends digits to the significand up to the first that does not fit; returns how many are
left. -/
def collect (significand : Nat) : List Char → Nat × Nat
  | [] => (significand, 0)
  | c :: rest =>
    let next := 10 * significand + Decimal.digitValue c
    if next < significandLimit then collect next rest else (significand, rest.length + 1)

/-- The exponent of a literal, if it fits in 32 bits with sign. -/
def exponentValue? (digits : List Char) : Option Nat :=
  let n := Decimal.natOfDigits digits
  if n ≤ Int32.maxValue.toInt then some n else none

def powerOfTen (e : Nat) : Float := Float.ofScientific 1 false e

/-- Divides by a power of ten, in steps of the largest that a floating point number holds. -/
def divideByTen (x : Float) (e : Nat) : Float :=
  if e ≤ 308 then x / powerOfTen e
  else if x == 0 then x
  else divideByTen (x / powerOfTen 308) (e - 308)
termination_by e

/-- `significand · 10 ^ e`; nothing if that is out of range. -/
def scale? (significand : Nat) (e : Int) : Option Float :=
  let x := significand.toUInt64.toFloat
  if e < 0 then some (divideByTen x e.natAbs)
  else if e ≤ 308 then
    let y := x * powerOfTen e.toNat
    if y.isInf then none else some y
  else if x == 0 then some x
  else none

def withSign (negative : Bool) (x : Float) : Float := if negative then -x else x

/-- The exponent saturates at the ends of 32 bits. -/
def saturate (e : Int) : Int := max Int32.minValue.toInt (min e Int32.maxValue.toInt)

/-- The value of a literal that has more digits than fit, a fraction or an exponent. -/
def Literal.float? (l : Literal) : Option Float :=
  -- Whole digits that do not fit leave their places; fraction digits that fit take theirs.
  let (significand, dropped) := collect 0 l.whole
  let (significand, shift) :=
    match l.fraction with
    | none => (significand, (dropped : Int))
    | some ds =>
      let (longer, unused) := collect significand ds
      (longer, dropped - (ds.length - unused : Nat))
  let scaled :=
    match l.exponent with
    | none => scale? significand shift
    | some (below, ds) =>
      match exponentValue? ds with
      | some e => scale? significand (saturate (if below then shift - e else shift + e))
      -- An exponent that is too long to count is out of range, or makes the number vanish.
      | none => if significand != 0 && !below then none else some 0
  scaled.map (withSign l.negative)

/-- The value of a literal; nothing if it is out of range. Minus zero is no integer. -/
def Literal.value? (l : Literal) : Option Number :=
  let n := Decimal.natOfDigits l.whole
  match l.fraction, l.exponent with
  | none, none =>
    if !l.negative && n < UInt64.size then some (.integer n)
    else if l.negative && 0 < n && Int64.minValue.toInt ≤ -n then some (.integer (-n))
    else l.float?.map .float
  | _, _ => l.float?.map .float

end TableQuery.Json
