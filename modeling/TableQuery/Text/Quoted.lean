import TableQuery.Text.Invisible

/-!
# Quoted text

How a string is shown inside a message: between double quotes, with quotes, backslashes and the
usual control characters escaped by a letter, and every other character that would not show by its
code point.
-/

namespace TableQuery.Text

/-- One character as it appears between the quotes. A single quote needs no escape there. -/
def showChar (c : Char) : List Char :=
  match c with
  | '"' => ['\\', '"']
  | '\\' => ['\\', '\\']
  | '\n' => ['\\', 'n']
  | '\r' => ['\\', 'r']
  | '\t' => ['\\', 't']
  | '\x00' => ['\\', '0']
  | c =>
    if extendsGrapheme c || isInvisible c then
      '\\' :: 'u' :: '\x7b' :: (Nat.toDigits 16 c.toNat ++ ['\x7d'])
    else [c]

def quoted (s : String) : String :=
  "\"" ++ String.ofList (s.toList.flatMap showChar) ++ "\""

/-- A list of quoted strings in square brackets. -/
def quotedList (ss : List String) : String :=
  "[" ++ ", ".intercalate (ss.map quoted) ++ "]"

end TableQuery.Text
