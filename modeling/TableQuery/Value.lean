import TableQuery.OrderedMap
import TableQuery.Json.Document
import TableQuery.Json.Printer
import TableQuery.Decimal.Numeral
import TableQuery.Decimal.Layout
import TableQuery.Text.Quoted

/-!
# Values

The values that callers put into requests and get out of responses. A number is the text of its
literal: `1` and `1.0` are different numbers, and neither is the string `"1"`. Equality is that of
the contents, in order.
-/

namespace TableQuery

inductive Value where
  | null
  | bool (b : Bool)
  | number (literal : String)
  | string (s : String)
  | bytes (b : List UInt8)
  | list (elements : List Value)
  | map (entries : OrderedMap Value)
  | stringSet (elements : List String)
  | numberSet (literals : List String)
  | bytesSet (elements : List (List UInt8))

/-- The attributes of an item by name, in order. -/
abbrev Item := OrderedMap Value

namespace Value

instance : Inhabited Value := ⟨.null⟩

/-! ## Equality -/

mutual

def same : Value → Value → Bool
  | .null, .null => true
  | .bool a, .bool b => a == b
  | .number a, .number b => a == b
  | .string a, .string b => a == b
  | .bytes a, .bytes b => a == b
  | .list as, .list bs => sameElements as bs
  | .map ⟨as⟩, .map ⟨bs⟩ => sameEntries as bs
  | .stringSet as, .stringSet bs => as == bs
  | .numberSet as, .numberSet bs => as == bs
  | .bytesSet as, .bytesSet bs => as == bs
  | _, _ => false

def sameElements : List Value → List Value → Bool
  | [], [] => true
  | a :: as, b :: bs => a.same b && sameElements as bs
  | _, _ => false

def sameEntries : List (String × Value) → List (String × Value) → Bool
  | [], [] => true
  | (j, a) :: as, (k, b) :: bs => j == k && a.same b && sameEntries as bs
  | _, _ => false

end

mutual

theorem same_iff : ∀ a b : Value, a.same b = true ↔ a = b
  | .null, b => by cases b <;> simp [same]
  | .bool _, b => by cases b <;> simp [same]
  | .number _, b => by cases b <;> simp [same]
  | .string _, b => by cases b <;> simp [same]
  | .bytes _, b => by cases b <;> simp [same]
  | .list as, b => by cases b <;> simp [same, sameElements_iff as]
  | .map ⟨as⟩, b => by
    cases b with
    | map bs => cases bs; simp [same, sameEntries_iff as]
    | _ => simp [same]
  | .stringSet _, b => by cases b <;> simp [same]
  | .numberSet _, b => by cases b <;> simp [same]
  | .bytesSet _, b => by cases b <;> simp [same]

theorem sameElements_iff : ∀ as bs : List Value, sameElements as bs = true ↔ as = bs
  | [], bs => by cases bs <;> simp [sameElements]
  | a :: as, bs => by cases bs <;> simp [sameElements, same_iff a, sameElements_iff as]

theorem sameEntries_iff : ∀ as bs : List (String × Value), sameEntries as bs = true ↔ as = bs
  | [], bs => by cases bs <;> simp [sameEntries]
  | (j, a) :: as, bs => by
    cases bs with
    | nil => simp [sameEntries]
    | cons b bs => cases b; simp [sameEntries, same_iff a, sameEntries_iff as, and_assoc]

end

instance : DecidableEq Value := fun a b => decidable_of_iff _ (same_iff a b)

/-! ## Making values -/

/-- A number from its literal; fails with the literal if the store would not take it. -/
def ofLiteral (literal : String) : Except String Value :=
  if Decimal.isNumeral literal then .ok (.number literal) else .error literal

def ofInt (n : Int) : Value := .number (Decimal.intText n)

/-- A number from the bits of a floating point number, in plain decimal text. -/
def ofBits (f : Decimal.BinaryFormat) (bits : Nat) : Except String Value :=
  ofLiteral (Decimal.plain.render f bits)

def ofOption {α : Type} (f : α → Value) : Option α → Value
  | none => .null
  | some a => f a

mutual

/-- The value of a JSON document. Numbers are written as the generic value writes them. -/
def ofJson : Json → Value
  | .null => .null
  | .bool b => .bool b
  | .number n => .number n.text
  | .string s => .string s
  | .array elements => .list (ofElements elements)
  | .object members => .map (OrderedMap.ofList (ofMembers members))

def ofElements : List Json → List Value
  | [] => []
  | j :: rest => ofJson j :: ofElements rest

def ofMembers : List (String × Json) → List (String × Value)
  | [] => []
  | (name, j) :: rest => (name, ofJson j) :: ofMembers rest

end

/-! ## Looking at values -/

def isNull : Value → Bool
  | .null => true
  | _ => false

/-- Null and the empty string cannot identify an item. -/
def isBlank : Value → Bool
  | .null => true
  | .string s => s.isEmpty
  | _ => false

def string? : Value → Option String
  | .string s => some s
  | _ => none

def number? : Value → Option String
  | .number n => some n
  | _ => none

/-- The integer that a number's literal denotes, if it is one of 64 bits. -/
def int64? (v : Value) : Option Int := v.number?.bind Decimal.int64?

def bool? : Value → Option Bool
  | .bool b => some b
  | _ => none

def map? : Value → Option Item
  | .map m => some m
  | _ => none

/-- A short text of a value, for messages: collections are counted. -/
def display : Value → String
  | .null => "null"
  | .bool b => toString b
  | .number n => n
  | .string s => Text.quoted s
  | .bytes b => "<" ++ toString b.length ++ " bytes>"
  | .list elements => "[" ++ toString elements.length ++ " items]"
  | .map entries => "\x7b" ++ toString entries.size ++ " keys\x7d"
  | .stringSet elements => "SS" ++ Text.quotedList elements
  | .numberSet literals => "NS" ++ Text.quotedList literals
  | .bytesSet elements => "BS[" ++ toString elements.length ++ " items]"

end Value

end TableQuery
