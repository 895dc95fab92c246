/-!
# Base64

Standard base64: the alphabet with `+` and `/`, padded with `=` to a multiple of four. Decoding is
strict, so that every sequence of bytes has one encoding: padding must be there, and the bits of the
last symbol that belong to no byte must be zero.
-/

namespace TableQuery.Base64

/-- The symbol of a value below 64. -/
def symbol (v : Nat) : Char :=
  if v < 26 then Char.ofNat (v + 65)
  else if v < 52 then Char.ofNat (v + 71)
  else if v < 62 then Char.ofNat (v - 4)
  else if v = 62 then '+'
  else '/'

def value? (byte : UInt8) : Option Nat :=
  let n := byte.toNat
  if 65 ≤ n ∧ n ≤ 90 then some (n - 65)
  else if 97 ≤ n ∧ n ≤ 122 then some (n - 71)
  else if 48 ≤ n ∧ n ≤ 57 then some (n + 4)
  else if n = 43 then some 62
  else if n = 47 then some 63
  else none

/-! ## Encoding -/

def encodeChars : List UInt8 → List Char
  | [] => []
  | [a] => [symbol (a.toNat / 4), symbol (a.toNat % 4 * 16), '=', '=']
  | [a, b] =>
    [symbol (a.toNat / 4), symbol (a.toNat % 4 * 16 + b.toNat / 16), symbol (b.toNat % 16 * 4), '=']
  | a :: b :: c :: rest =>
    symbol (a.toNat / 4) :: symbol (a.toNat % 4 * 16 + b.toNat / 16)
      :: symbol (b.toNat % 16 * 4 + c.toNat / 64) :: symbol (c.toNat % 64) :: encodeChars rest

def encode (bytes : List UInt8) : String := String.ofList (encodeChars bytes)

/-! ## Decoding -/

/-- Why a text is no base64; offsets count bytes. -/
inductive Error where
  | symbol (byte : UInt8) (offset : Nat)
  | length (n : Nat)
  | padding
  | lastSymbol (byte : UInt8) (offset : Nat)
  deriving DecidableEq

def Error.message : Error → String
  | .symbol byte offset => s!"Invalid symbol {byte.toNat}, offset {offset}."
  | .length n => s!"Invalid input length: {n}"
  | .padding => "Invalid padding"
  | .lastSymbol byte offset => s!"Invalid last symbol {byte.toNat}, offset {offset}."

def pad : UInt8 := 61

def valueAt (offset : Nat) (byte : UInt8) : Except Error Nat :=
  match value? byte with
  | some v => .ok v
  | none => .error (.symbol byte offset)

/-- The symbols at the start of the last quad, with their bytes, and the number of padding
characters after them. Padding cannot begin before the third place, and nothing else can follow
it. -/
def lastSymbols (start place : Nat) : List UInt8 → Except Error (List (UInt8 × Nat) × Nat)
  | [] => .ok ([], 0)
  | byte :: rest =>
    if byte = pad then
      if place < 2 then .error (.symbol pad (start + place))
      else if rest.all (· == pad) then .ok ([], rest.length + 1)
      else .error (.symbol pad (start + place))
    else do
      let v ← valueAt (start + place) byte
      let (symbols, pads) ← lastSymbols start (place + 1) rest
      return ((byte, v) :: symbols, pads)

/-- Checks that the bits of the last symbol that belong to no byte are zero. -/
def finish (byte : UInt8) (offset leftover : Nat) (bytes : List UInt8) :
    Except Error (List UInt8) :=
  if leftover = 0 then .ok bytes else .error (.lastSymbol byte offset)

/-- The bytes of the last quad, which starts at offset `start` and has one to four places. -/
def decodeLast (start : Nat) (quad : List UInt8) : Except Error (List UInt8) := do
  let (symbols, pads) ← lastSymbols start 0 quad
  if symbols.length < 2 then .error (.length (start + symbols.length))
  else if (symbols.length + pads) % 4 ≠ 0 then .error .padding
  else match symbols with
    -- Two symbols hold one byte and four bits more, three hold two bytes and two bits more.
    | [(_, v), (byte, w)] =>
      finish byte (start + 1) (w % 16) [UInt8.ofNat (v * 4 + w / 16)]
    | [(_, v), (_, w), (byte, x)] =>
      finish byte (start + 2) (x % 4)
        [UInt8.ofNat (v * 4 + w / 16), UInt8.ofNat (w % 16 * 16 + x / 4)]
    | [(_, v), (_, w), (_, x), (_, y)] =>
      .ok [UInt8.ofNat (v * 4 + w / 16), UInt8.ofNat (w % 16 * 16 + x / 4),
        UInt8.ofNat (x % 4 * 64 + y)]
    | _ => .error .padding

def decodeFrom (start : Nat) : List UInt8 → Except Error (List UInt8)
  | [] => .ok []
  | a :: b :: c :: d :: e :: rest => do
    let v ← valueAt start a
    let w ← valueAt (start + 1) b
    let x ← valueAt (start + 2) c
    let y ← valueAt (start + 3) d
    let bytes ← decodeFrom (start + 4) (e :: rest)
    return UInt8.ofNat (v * 4 + w / 16) :: UInt8.ofNat (w % 16 * 16 + x / 4)
      :: UInt8.ofNat (x % 4 * 64 + y) :: bytes
  | quad => decodeLast start quad

/-- A byte that stands alone after complete quads and is no symbol is reported before anything
else. -/
def strayLast? (bytes : List UInt8) : Option UInt8 :=
  if bytes.length % 4 = 1 then
    bytes.getLast?.filter fun byte => byte != pad && (value? byte).isNone
  else none

def decodeBytes (bytes : List UInt8) : Except Error (List UInt8) :=
  match strayLast? bytes with
  | some byte => .error (.symbol byte (bytes.length - 1))
  | none => decodeFrom 0 bytes

/-- The bytes of a text in UTF-8. -/
def utf8 (s : String) : List UInt8 := s.toList.flatMap String.utf8EncodeChar

def decode (s : String) : Except Error (List UInt8) := decodeBytes (utf8 s)

end TableQuery.Base64
