/-!
# Shortest decimals of binary floating point numbers

A finite binary number is `m · 2 ^ q`. The decimal written for it has the fewest digits among those
that lie in its rounding interval, the reals that round back to it; of several such it is the one
nearest to the number. All comparisons are exact.
-/

namespace TableQuery.Decimal

/-- Field widths of a binary floating point format. -/
structure BinaryFormat where
  fractionBits : Nat
  exponentBits : Nat

def binary64 : BinaryFormat := ⟨52, 11⟩

def binary32 : BinaryFormat := ⟨23, 8⟩

/-- What a bit pattern stands for. A finite number is `m · 2 ^ q`. -/
inductive BinaryClass where
  | nan
  | infinite (negative : Bool)
  | finite (negative : Bool) (m : Nat) (q : Int)

/-- Exponent of the least significant bit of the smallest numbers. -/
def BinaryFormat.minExponent (f : BinaryFormat) : Int :=
  2 - (Nat.pow 2 (f.exponentBits - 1) : Nat) - f.fractionBits

def BinaryFormat.classify (f : BinaryFormat) (bits : Nat) : BinaryClass :=
  let fraction := bits % Nat.pow 2 f.fractionBits
  let biased := bits / Nat.pow 2 f.fractionBits % Nat.pow 2 f.exponentBits
  let negative := bits / Nat.pow 2 (f.fractionBits + f.exponentBits) % 2 == 1
  if biased == Nat.pow 2 f.exponentBits - 1 then
    if fraction == 0 then .infinite negative else .nan
  else if biased == 0 then .finite negative fraction f.minExponent
  else .finite negative (Nat.pow 2 f.fractionBits + fraction) (f.minExponent + (biased - 1 : Nat))

/-- A positive number with its rounding interval, in units of `2 ^ unit`. -/
structure Interval where
  low : Nat
  value : Nat
  high : Nat
  unit : Int
  /-- Whether the two ends round to the number. -/
  closed : Bool

/-- The gap below a power of two is half the gap above it. A tie rounds to an even mantissa, so the
ends belong to the interval exactly if `m` is even. -/
def BinaryFormat.interval (f : BinaryFormat) (m : Nat) (q : Int) : Interval :=
  { low := if m == Nat.pow 2 f.fractionBits then 4 * m - 1 else 4 * m - 2
    value := 4 * m
    high := 4 * m + 2
    unit := q - 2
    closed := m % 2 == 0 }

/-- How the nearer of two decimals is chosen when the number lies halfway between them. -/
inductive Tie where
  | up
  | even

/-- The interval measured on the grid of the multiples of `10 ^ k`: its ends and its number in
units of `1 / scale` grid steps. -/
structure OnGrid where
  low : Nat
  value : Nat
  high : Nat
  scale : Nat

def Interval.onGrid (i : Interval) (k : Int) : OnGrid :=
  let up := Nat.pow 2 i.unit.toNat * Nat.pow 10 (-k).toNat
  { low := i.low * up
    value := i.value * up
    high := i.high * up
    scale := Nat.pow 2 (-i.unit).toNat * Nat.pow 10 k.toNat }

/-- The multiple of `10 ^ k` in the interval that is nearest to the number, if there is one. Only
the two neighbours of the number on the grid can be. -/
def Interval.pick? (i : Interval) (tie : Tie) (k : Int) : Option Nat :=
  let g := i.onGrid k
  let inside (d : Nat) : Bool :=
    if i.closed then g.low ≤ d * g.scale && d * g.scale ≤ g.high
    else g.low < d * g.scale && d * g.scale < g.high
  let below := g.value / g.scale
  let above := below + 1
  let twice := 2 * (g.value - below * g.scale)
  match inside below, inside above with
  | false, false => none
  | true, false => some below
  | false, true => some above
  | true, true =>
    if twice < g.scale then some below
    else if g.scale < twice then some above
    else match tie with
      | .up => some above
      | .even => if below % 2 == 0 then some below else some above

/-- Tries ever finer grids, from `10 ^ k` down. -/
def Interval.search (i : Interval) (tie : Tie) : Nat → Int → Nat × Int
  | 0, k => ((i.onGrid k).value / (i.onGrid k).scale, k)
  | steps + 1, k =>
    match i.pick? tie k with
    | some d => (d, k)
    | none => i.search tie steps (k - 1)

/-- Digits and exponent of the shortest decimal `d · 10 ^ k` of a positive number. The search starts
above the number; twenty grids further down the spacing is below that of any supported format. -/
def BinaryFormat.shortest (f : BinaryFormat) (tie : Tie) (m : Nat) (q : Int) : Nat × Int :=
  -- The quotient is a little above the decimal logarithm of two.
  (f.interval m q).search tie 20 ((m.log2 + 1 + q) * 30103 / 100000 + 1)

end TableQuery.Decimal
