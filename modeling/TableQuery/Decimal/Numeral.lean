/-!
# Decimal numerals

The number literals that the store accepts, and the reading of integers from them.
-/

namespace TableQuery.Decimal

/-- Drops a single leading sign. -/
def unsigned : List Char → List Char
  | '+' :: rest => rest
  | '-' :: rest => rest
  | cs => cs

/-- Cuts at the first character that satisfies `p`: what stands before it, and what stands after it
if there is one. -/
def cutAt (p : Char → Bool) : List Char → List Char × Option (List Char)
  | [] => ([], none)
  | c :: rest =>
    if p c then ([], some rest)
    else ((cutAt p rest).1.cons c, (cutAt p rest).2)

def allDigits (cs : List Char) : Bool := cs.all Char.isDigit

/-- Digits with at most one point among them, and at least one digit. -/
def isMantissa (cs : List Char) : Bool :=
  match cutAt (· == '.') cs with
  | (whole, none) => !whole.isEmpty && allDigits whole
  | (whole, some fraction) =>
    (!whole.isEmpty || !fraction.isEmpty) && allDigits whole && allDigits fraction

/-- An optional sign and at least one digit. -/
def isExponent (cs : List Char) : Bool :=
  !(unsigned cs).isEmpty && allDigits (unsigned cs)

/-- Whether a text is a number literal: an optional sign, digits with at most one point, and an
optional exponent. -/
def isNumeral (s : String) : Bool :=
  match cutAt (fun c => c == 'e' || c == 'E') (unsigned s.toList) with
  | (mantissa, none) => isMantissa mantissa
  | (mantissa, some exponent) => isMantissa mantissa && isExponent exponent

/-! ## Integers -/

def digitValue (c : Char) : Nat := c.toNat - '0'.toNat

/-- The number that a list of digits denotes, most significant first. -/
def natOfDigits (cs : List Char) : Nat := cs.foldl (fun n c => 10 * n + digitValue c) 0

/-- The natural number that a non-empty list of digits denotes. -/
def nat? (cs : List Char) : Option Nat :=
  if !cs.isEmpty && allDigits cs then some (natOfDigits cs) else none

/-- An integer with an optional sign, of any size. -/
def int? (s : String) : Option Int :=
  match s.toList with
  | '-' :: rest => (nat? rest).map fun n => -(n : Int)
  | '+' :: rest => (nat? rest).map fun n => (n : Int)
  | cs => (nat? cs).map fun n => (n : Int)

/-- An integer with an optional sign that fits in 64 bits, sign included. -/
def int64? (s : String) : Option Int :=
  (int? s).filter fun n => Int64.minValue.toInt ≤ n && n ≤ Int64.maxValue.toInt

/-- The decimal text of an integer, with a minus sign if it is negative. -/
def intText : Int → String
  | .ofNat n => String.ofList (Nat.toDigits 10 n)
  | .negSucc n => String.ofList ('-' :: Nat.toDigits 10 (n + 1))

end TableQuery.Decimal
