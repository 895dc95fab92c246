import TableQuery.Json.Draft
import TableQuery.Json.Printer
import TableQuery.Text.Quoted
import TableQuery.Base64
import TableQuery.OrderedMap

/-!
# Typed readers

A reader makes a value of some type out of a draft, or reports the first thing that keeps it from
doing so, in the order of the text. Readers for records are put together from their fields.
-/

namespace TableQuery.Json

/-- What a reader comes upon, as far as a message tells it. -/
inductive Found where
  | null
  | bool (b : Bool)
  | number (n : Number)
  | string (s : String)
  | sequence
  | map

def Found.text : Found → String
  | .null => "null"
  | .bool b => "boolean `" ++ toString b ++ "`"
  | .number (.integer n) => "integer `" ++ Decimal.intText n ++ "`"
  | .number (.float x) => "floating point `" ++ (Number.float x).text ++ "`"
  | .string s => "string " ++ Text.quoted s
  | .sequence => "sequence"
  | .map => "map"

inductive ReadError where
  | fault (f : Fault)
  | invalidType (found : Found) (wanted : String)
  | invalidValue (found : Found) (wanted : String)
  | invalidLength (length : Nat) (wanted : String)
  | missingField (name : String)
  | duplicateField (name : String)
  | unknownVariant (name : String) (known : List String)
  | tagCount
  | unknownTag (tag : String) (known : List String)
  | base64 (e : Base64.Error)

def ReadError.message : ReadError → String
  | .fault .malformed => "malformed text"
  | .fault .truncated => "truncated text"
  | .invalidType found wanted => "invalid type: " ++ found.text ++ ", expected " ++ wanted
  | .invalidValue found wanted => "invalid value: " ++ found.text ++ ", expected " ++ wanted
  | .invalidLength n wanted => "invalid length " ++ toString n ++ ", expected " ++ wanted
  | .missingField name => "missing field `" ++ name ++ "`"
  | .duplicateField name => "duplicate field `" ++ name ++ "`"
  | .unknownVariant name known =>
    "unknown variant `" ++ name ++ "`, expected one of "
      ++ ", ".intercalate (known.map fun k => "`" ++ k ++ "`")
  | .tagCount => "AttributeValue must have exactly one key"
  | .unknownTag tag known =>
    "unknown attribute value type tag `" ++ tag ++ "`, expected one of " ++ Text.quotedList known
  | .base64 e => e.message

abbrev Reader (α : Type) := Draft → Except ReadError α

variable {α β : Type}

def Draft.found : Draft → Except Fault Found
  | .null => .ok .null
  | .bool b => .ok (.bool b)
  | .number (some n) => .ok (.number n)
  | .number none => .error .malformed
  | .string s => .ok (.string s)
  | .garbled => .error .malformed
  | .array .. => .ok .sequence
  | .object .. => .ok .map
  | .broken b => .error b.reading

/-- The report that a draft is not what is wanted. A scalar is read before that is known. -/
def Draft.unlike (d : Draft) (wanted : String) : ReadError :=
  match d.found with
  | .ok found => .invalidType found wanted
  | .error f => .fault f

/-- The end of a container: an error if it is a break. -/
def close (ending : Option Break) (a : α) : Except ReadError α :=
  match ending with
  | none => .ok a
  | some b => .error (.fault b.reading)

/-- Goes into a container, unless it lies too deep. -/
def enter (deep : Bool) (inside : Except ReadError α) : Except ReadError α :=
  if deep then .error (.fault .malformed) else inside

/-! ## Scalars -/

def readString : Reader String
  | .string s => .ok s
  | d => .error (d.unlike "a string")

def readBool : Reader Bool
  | .bool b => .ok b
  | d => .error (d.unlike "a boolean")

def readInt32 : Reader Int32
  | .number (some (.integer n)) =>
    if Int32.minValue.toInt ≤ n ∧ n ≤ Int32.maxValue.toInt then .ok (Int32.ofInt n)
    else .error (.invalidValue (.number (.integer n)) "i32")
  | d => .error (d.unlike "i32")

def Number.toFloat : Number → Float
  | .integer n => if n < 0 then -n.natAbs.toUInt64.toFloat else n.natAbs.toUInt64.toFloat
  | .float x => x

def readFloat : Reader Float
  | .number (some n) => .ok n.toFloat
  | d => .error (d.unlike "f64")

def readNull : Reader Unit
  | .null => .ok ()
  | d => .error (d.unlike "unit")

/-- A value that may be null. -/
def readOption (read : Reader α) : Reader (Option α)
  | .null => .ok none
  | d => (read d).map some

/-! ## Lists and maps -/

def readElements (read : Reader α) (ending : Option Break) : List Draft → Except ReadError (List α)
  | [] => close ending []
  | d :: rest => do
    let a ← read d
    let as ← readElements read ending rest
    return a :: as

def readList (read : Reader α) : Reader (List α)
  | .array deep elements ending => enter deep (readElements read ending elements)
  | d => .error (d.unlike "a sequence")

def readName (name : Name) : Except ReadError String :=
  match name.read with
  | .ok s => .ok s
  | .error f => .error (.fault f)

def readMembers (read : Reader α) (ending : Option Break) :
    List (Name × Draft) → Except ReadError (List (String × α))
  | [] => close ending []
  | (name, d) :: rest => do
    let name ← readName name
    let a ← read d
    let as ← readMembers read ending rest
    return (name, a) :: as

def readMap (read : Reader α) : Reader (OrderedMap α)
  | .object deep members ending =>
    enter deep ((readMembers read ending members).map OrderedMap.ofList)
  | d => .error (d.unlike "a JSON object")

/-! ## Records

A record is an object whose members are its fields, or an array of its fields in the order of their
declaration. Members that are no fields are passed over.
-/

/-- What holds of a field that is not there. -/
inductive Presence where
  /-- It is missed in an object and in an array. -/
  | required
  /-- It may be absent from an object, but an array must reach it. -/
  | optional
  /-- It may be absent, and an array may end before it. -/
  | defaulted
  deriving DecidableEq

structure RecordField (α : Type) where
  name : String
  presence : Presence
  /-- Reads the field and puts it into the record. -/
  fill : Draft → α → Except ReadError α

def RecordField.of (name : String) (presence : Presence) (read : Reader β) (set : β → α → α) :
    RecordField α :=
  ⟨name, presence, fun d a => (read d).map fun b => set b a⟩

/-- Whether a draft comes straight from a text, or from a generic value that was read before. -/
inductive Form where
  | text
  | value
  deriving DecidableEq

/-- Reads the members of a record into `a`; `seen` are the fields that have been there. -/
def readFields (fields : List (RecordField α)) (ending : Option Break) (seen : List String)
    (a : α) : List (Name × Draft) → Except ReadError (List String × α)
  | [] => close ending (seen, a)
  | (name, d) :: rest => do
    let name ← readName name
    match fields.find? (·.name == name) with
    | none =>
      match d.passing with
      | some f => .error (.fault f)
      | none => readFields fields ending seen a rest
    | some field =>
      -- A field that comes twice is reported before its value is looked at.
      if seen.contains name then .error (.duplicateField name)
      else
        let a ← field.fill d a
        readFields fields ending (name :: seen) a rest

def missing? (fields : List (RecordField α)) (seen : List String) : Option String :=
  (fields.find? fun f => f.presence == .required && !seen.contains f.name).map (·.name)

def counted (n : Nat) : String := toString n ++ (if n = 1 then " element" else " elements")

/-- Reads elements as fields; `index` counts the fields that have been read. -/
def readInOrder (short : Nat → ReadError) (surplus : ReadError) (ending : Option Break) :
    Nat → List (RecordField α) → List Draft → α → Except ReadError α
  | _, [], [], a => close ending a
  | _, [], _ :: _, _ => .error surplus
  | index, field :: fields, d :: rest, a => do
    let a ← field.fill d a
    readInOrder short surplus ending (index + 1) fields rest a
  | index, field :: fields, [], a => do
    let a ← close ending a
    if field.presence = .defaulted then readInOrder short surplus ending (index + 1) fields [] a
    else .error (short index)

/-- A record whose fields are read into `blank`. A text is not looked at beyond the last field of an
array, so its length is not known there. -/
def readRecord (form : Form) (name : String) (fields : List (RecordField α)) (blank : α) : Reader α
  | .object deep members ending =>
    enter deep do
      let (seen, a) ← readFields fields ending [] blank members
      match missing? fields seen with
      | some field => .error (.missingField field)
      | none => return a
  | .array deep elements ending =>
    let short (n : Nat) : ReadError :=
      .invalidLength n ("struct " ++ name ++ " with " ++ counted fields.length)
    let surplus : ReadError :=
      match form with
      | .text => .fault .malformed
      | .value => .invalidLength elements.length "fewer elements in array"
    enter deep (readInOrder short surplus ending 0 fields elements blank)
  | d => .error (d.unlike ("struct " ++ name))

/-! ## Variants

One of a list of names, alone or as the only member of an object, whose value is then null.
-/

def variant? (known : List (String × α)) (name : String) : Except ReadError α :=
  match known.find? (·.1 == name) with
  | some (_, a) => .ok a
  | none => .error (.unknownVariant name (known.map (·.1)))

/-- A text goes wrong where anything but a name or an object stands. -/
def readVariantText (known : List (String × α)) : Reader α
  | .string s => variant? known s
  | .garbled => .error (.fault .malformed)
  | .object deep members ending =>
    enter deep do
      match members with
      | [] => close ending () >>= fun _ => .error (.fault .malformed)
      | (.missing _, d) :: _ => .error (d.unlike "variant identifier")
      | (name, d) :: rest =>
        let a ← variant? known (← readName name)
        readNull d
        match rest with
        | [] => close ending a
        | _ => .error (.fault .malformed)
  | .broken b => .error (.fault b.choosing)
  | _ => .error (.fault .malformed)

def readVariantValue (known : List (String × α)) : Reader α
  | .string s => variant? known s
  | .object _ [(name, d)] _ => do
    let a ← variant? known (← readName name)
    readNull d
    return a
  | .object .. => .error (.invalidValue .map "map with a single key")
  | d => .error (d.unlike "string or map")

def readVariant (form : Form) (known : List (String × α)) : Reader α :=
  match form with
  | .text => readVariantText known
  | .value => readVariantValue known

/-! ## Reading texts and generic values -/

/-- Reads straight from a text; only blanks may follow the value. -/
def readText (read : Reader α) (text : String) : Except ReadError α := do
  let t := Draft.ofText nestingLimit text
  let a ← read t.value
  if t.trailing then .error (.fault .malformed) else return a

/-- Reads a text into a generic value first. -/
def readGeneric (read : Reader α) (text : String) : Except ReadError α :=
  match Json.read text with
  | .ok j => read j.canonical.toDraft
  | .error f => .error (.fault f)

end TableQuery.Json
