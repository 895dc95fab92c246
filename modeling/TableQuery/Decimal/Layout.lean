import TableQuery.Decimal.Shortest

/-!
# Layouts of floating point text

Where the point goes, when an exponent is written, and what the special values are called. Each
kind of output has one `Layout`.
-/

namespace TableQuery.Decimal

structure Layout where
  tie : Tie
  /-- Whether a decimal whose first digit stands at `10 ^ e` is written without an exponent. -/
  positional : Int → Bool
  /-- What follows the digits of a positional integer. -/
  integerTail : String
  nan : String
  infinite : String

def zeros (n : Nat) : List Char := List.replicate n '0'

/-- Digits without an exponent; `point` is the place of the point counted from the first digit. -/
def Layout.positionally (l : Layout) (digits : List Char) (point : Int) : String :=
  if point ≤ 0 then
    String.ofList ('0' :: '.' :: zeros (-point).toNat ++ digits)
  else if digits.length ≤ point.toNat then
    String.ofList (digits ++ zeros (point.toNat - digits.length)) ++ l.integerTail
  else
    String.ofList (digits.take point.toNat ++ '.' :: digits.drop point.toNat)

/-- One digit before the point, and a signed exponent. -/
def scientifically (digits : List Char) (exponent : Int) : String :=
  let mantissa := match digits with
    | [] => []
    | [d] => [d]
    | d :: rest => d :: '.' :: rest
  let sign := if exponent < 0 then '-' else '+'
  String.ofList (mantissa ++ 'e' :: sign :: Nat.toDigits 10 exponent.natAbs)

def Layout.magnitude (l : Layout) (f : BinaryFormat) (m : Nat) (q : Int) : String :=
  if m == 0 then "0" ++ l.integerTail
  else
    let (d, k) := f.shortest l.tie m q
    let digits := Nat.toDigits 10 d
    let point := digits.length + k
    if l.positional (point - 1) then l.positionally digits point
    else scientifically digits (point - 1)

/-- The text of the number with the given bits. -/
def Layout.render (l : Layout) (f : BinaryFormat) (bits : Nat) : String :=
  let signed (negative : Bool) (s : String) := if negative then "-" ++ s else s
  match f.classify bits with
  | .nan => l.nan
  | .infinite negative => signed negative l.infinite
  | .finite negative m q => signed negative (l.magnitude f m q)

/-- Plain decimal text: never an exponent, and integers have no fraction. -/
def plain : Layout :=
  { tie := .up
    positional := fun _ => true
    integerTail := ""
    nan := "NaN"
    infinite := "inf" }

/-- Text of a number in a JSON document: always with a point or an exponent, positional from
`1e-5` up to `1e16`. A document has no other numbers than finite ones. -/
def document : Layout :=
  { tie := .even
    positional := fun e => -5 ≤ e && e < 16
    integerTail := ".0"
    nan := "null"
    infinite := "null" }

end TableQuery.Decimal
