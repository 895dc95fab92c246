import TableQuery.Json.Document
import TableQuery.Decimal.Layout
import TableQuery.Decimal.Numeral

/-!
# JSON text

The compact text of a document: no blanks, members in document order. Quotes, backslashes and
control characters are escaped, all else is written as it is.
-/

namespace TableQuery.Json

def Number.text : Number → String
  | .integer n => Decimal.intText n
  | .float x => Decimal.document.render Decimal.binary64 x.toBits.toNat

/-- The last two digits of the escape of a control character. -/
def controlDigits (code : Nat) : List Char :=
  [Nat.digitChar (code / 16), Nat.digitChar (code % 16)]

def escapeChar (c : Char) : List Char :=
  match c with
  | '"' => ['\\', '"']
  | '\\' => ['\\', '\\']
  | '\x08' => ['\\', 'b']
  | '\t' => ['\\', 't']
  | '\n' => ['\\', 'n']
  | '\x0c' => ['\\', 'f']
  | '\r' => ['\\', 'r']
  | c => if c.toNat < 0x20 then '\\' :: 'u' :: '0' :: '0' :: controlDigits c.toNat else [c]

def stringChars (s : String) : List Char :=
  '"' :: (s.toList.flatMap escapeChar ++ ['"'])

mutual

def chars : Json → List Char
  | .null => "null".toList
  | .bool true => "true".toList
  | .bool false => "false".toList
  | .number n => n.text.toList
  | .string s => stringChars s
  | .array elements => '[' :: (elementChars elements ++ [']'])
  | .object members => '\x7b' :: (memberChars members ++ ['\x7d'])

def elementChars : List Json → List Char
  | [] => []
  | [j] => j.chars
  | j :: rest => j.chars ++ ',' :: elementChars rest

def memberChars : List (String × Json) → List Char
  | [] => []
  | [(name, j)] => stringChars name ++ ':' :: j.chars
  | (name, j) :: rest => stringChars name ++ ':' :: (j.chars ++ ',' :: memberChars rest)

end

/-- The compact text of a document. -/
def print (j : Json) : String := String.ofList j.chars

end TableQuery.Json
