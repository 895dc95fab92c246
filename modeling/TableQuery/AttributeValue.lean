import TableQuery.Json.Reader

/-!
# Attribute values

The typed form in which the store sends and receives values: an object with one member, whose name
tells the type of its value. Numbers are strings there, and bytes are base64.
-/

namespace TableQuery

inductive AttributeValue where
  | s (text : String)
  | n (literal : String)
  | b (bytes : List UInt8)
  | ss (texts : List String)
  | ns (literals : List String)
  | bs (elements : List (List UInt8))
  | bool (flag : Bool)
  | null (flag : Bool)
  | l (elements : List AttributeValue)
  | m (entries : OrderedMap AttributeValue)

/-- An item, a key, a cursor or the bound values of a request, as they are sent. -/
abbrev AttributeMap := OrderedMap AttributeValue

namespace AttributeValue

instance : Inhabited AttributeValue := ⟨.null true⟩

def tags : List String := ["S", "N", "B", "SS", "NS", "BS", "BOOL", "NULL", "L", "M"]

def tag : AttributeValue → String
  | .s _ => "S"
  | .n _ => "N"
  | .b _ => "B"
  | .ss _ => "SS"
  | .ns _ => "NS"
  | .bs _ => "BS"
  | .bool _ => "BOOL"
  | .null _ => "NULL"
  | .l _ => "L"
  | .m _ => "M"

/-! ## Writing -/

mutual

def toJson : AttributeValue → Json
  | .s text => .object [("S", .string text)]
  | .n literal => .object [("N", .string literal)]
  | .b bytes => .object [("B", .string (Base64.encode bytes))]
  | .ss texts => .object [("SS", .strings texts)]
  | .ns literals => .object [("NS", .strings literals)]
  | .bs elements => .object [("BS", .strings (elements.map Base64.encode))]
  | .bool flag => .object [("BOOL", .bool flag)]
  | .null flag => .object [("NULL", .bool flag)]
  | .l elements => .object [("L", .array (listJson elements))]
  | .m ⟨entries⟩ => .object [("M", .object (entriesJson entries))]

def listJson : List AttributeValue → List Json
  | [] => []
  | w :: rest => w.toJson :: listJson rest

def entriesJson : List (String × AttributeValue) → List (String × Json)
  | [] => []
  | (name, w) :: rest => (name, w.toJson) :: entriesJson rest

end

/-! ## Reading -/

open Json

def readBytes (d : Draft) : Except ReadError (List UInt8) := do
  match Base64.decode (← readString d) with
  | .ok bytes => return bytes
  | .error e => .error (.base64 e)

def decodeAll : List String → Except Base64.Error (List (List UInt8))
  | [] => .ok []
  | text :: rest => do
    let bytes ← Base64.decode text
    let more ← decodeAll rest
    return bytes :: more

/-- All the elements are read as strings before the first is decoded. -/
def readBytesList (d : Draft) : Except ReadError (List (List UInt8)) := do
  match decodeAll (← readList readString d) with
  | .ok all => return all
  | .error e => .error (.base64 e)

mutual

/-- Reads an attribute value. The tag is checked before the value, the value before a second member,
of which no more than the name is read. -/
def read : Draft → Except ReadError AttributeValue
  | .object deep members ending => enter deep (readTagged ending members)
  | d => .error (d.unlike "a DynamoDB AttributeValue object with exactly one type key")

def readTagged (ending : Option Break) : List (Name × Draft) → Except ReadError AttributeValue
  | [] => close ending () >>= fun _ => .error .tagCount
  | (name, d) :: rest => do
    let tag ← readName name
    let w ← readPayload tag d
    match rest with
    | [] => close ending w
    | (name, _) :: _ => readName name >>= fun _ => .error .tagCount

def readPayload (tag : String) (d : Draft) : Except ReadError AttributeValue :=
  if tag = "S" then (readString d).map .s
  else if tag = "N" then (readString d).map .n
  else if tag = "B" then (readBytes d).map .b
  else if tag = "SS" then (readList readString d).map .ss
  else if tag = "NS" then (readList readString d).map .ns
  else if tag = "BS" then (readBytesList d).map .bs
  else if tag = "BOOL" then (readBool d).map .bool
  else if tag = "NULL" then (readBool d).map .null
  else if tag = "L" then
    match d with
    | .array deep elements ending => enter deep ((readElements ending elements).map .l)
    | d => .error (d.unlike "a sequence")
  else if tag = "M" then
    match d with
    | .object deep members ending =>
      enter deep ((readEntries ending members).map fun es => .m (OrderedMap.ofList es))
    | d => .error (d.unlike "a JSON object")
  else .error (.unknownTag tag tags)

def readElements (ending : Option Break) : List Draft → Except ReadError (List AttributeValue)
  | [] => close ending []
  | d :: rest => do
    let w ← read d
    let ws ← readElements ending rest
    return w :: ws

def readEntries (ending : Option Break) :
    List (Name × Draft) → Except ReadError (List (String × AttributeValue))
  | [] => close ending []
  | (name, d) :: rest => do
    let name ← readName name
    let w ← read d
    let ws ← readEntries ending rest
    return (name, w) :: ws

end

/-- Reads an attribute value from a document. -/
def ofJson? (j : Json) : Except ReadError AttributeValue := read j.toDraft

/-! ## Display -/

def display : AttributeValue → String
  | .s text => "\x7bS: " ++ text ++ "\x7d"
  | .n literal => "\x7bN: " ++ literal ++ "\x7d"
  | .b bytes => "\x7bB: " ++ toString bytes.length ++ " bytes\x7d"
  | .ss texts => "\x7bSS: " ++ Text.quotedList texts ++ "\x7d"
  | .ns literals => "\x7bNS: " ++ Text.quotedList literals ++ "\x7d"
  | .bs elements => "\x7bBS: " ++ toString elements.length ++ " items\x7d"
  | .bool flag => "\x7bBOOL: " ++ toString flag ++ "\x7d"
  | .null flag => "\x7bNULL: " ++ toString flag ++ "\x7d"
  | .l elements => "\x7bL: " ++ toString elements.length ++ " items\x7d"
  | .m entries => "\x7bM: " ++ toString entries.size ++ " keys\x7d"

end AttributeValue

namespace AttributeMap

def toJson (m : AttributeMap) : Json := .object (AttributeValue.entriesJson m.entries)

def read : Json.Reader AttributeMap := Json.readMap AttributeValue.read

end AttributeMap

end TableQuery
