import TableQuery.AttributeValue.OfValue

/-!
# Placeholders

Expressions hold neither column names nor values. They refer to both by keys, `#1`, `#2`, … for
names and `:1`, `:2`, … for values, which the request declares beside its expressions. A table hands
out the keys of one request: a name or a value that it has met before keeps its key, anything else
gets the next one.
-/

namespace TableQuery

/-- Keys with one sigil, numbered from one in 32 bits. -/
structure KeySupply where
  sigil : Char
  next : UInt32 := 1

namespace KeySupply

def key (sigil : Char) (n : UInt32) : String := String.ofList (sigil :: Nat.toDigits 10 n.toNat)

/-- The next key, and the sequence after it. -/
def take (s : KeySupply) : String × KeySupply := (key s.sigil s.next, { s with next := s.next + 1 })

/-- The first keys of the sequence. -/
def keys : Nat → KeySupply → List String
  | 0, _ => []
  | n + 1, s => s.take.1 :: keys n s.take.2

/-- The key under which something is declared in a map, or else the next key, under which it is
declared then. -/
def declare {α : Type} [BEq α] (s : KeySupply) (m : OrderedMap α) (a : α) :
    String × OrderedMap α × KeySupply :=
  match m.keyWhere? (· == a) with
  | some key => (key, m, s)
  | none =>
    let (key, s) := s.take
    (key, m.insert key a, s)

end KeySupply

def nameSigil : Char := '#'

def valueSigil : Char := ':'

/-- The names and values that the expressions of a request refer to, by their keys. -/
structure Placeholders where
  names : OrderedMap String := ∅
  values : OrderedMap Value := ∅
  nameSupply : KeySupply := { sigil := nameSigil }
  valueSupply : KeySupply := { sigil := valueSigil }

namespace Placeholders

/-- Nothing is declared; the first keys are `#1` and `:1`. -/
def empty : Placeholders := { names := ∅ }

instance : Inhabited Placeholders := ⟨empty⟩

/-- The key of a column, which is declared if it is not yet. -/
def nameKey (t : Placeholders) (column : String) : String × Placeholders :=
  let (key, names, nameSupply) := t.nameSupply.declare t.names column
  (key, { t with names, nameSupply })

/-- The key of a value, which is declared if it is not yet. -/
def valueKey (t : Placeholders) (value : Value) : String × Placeholders :=
  let (key, values, valueSupply) := t.valueSupply.declare t.values value
  (key, { t with values, valueSupply })

def nameKeys (t : Placeholders) : List String → List String × Placeholders
  | [] => ([], t)
  | column :: rest =>
    let (key, t) := t.nameKey column
    let (keys, t) := t.nameKeys rest
    (key :: keys, t)

def valueKeys (t : Placeholders) : List Value → List String × Placeholders
  | [] => ([], t)
  | value :: rest =>
    let (key, t) := t.valueKey value
    let (keys, t) := t.valueKeys rest
    (key :: keys, t)

def declaresName (t : Placeholders) (key : String) : Bool := t.names.contains key

def declaresValue (t : Placeholders) (key : String) : Bool := t.values.contains key

/-- Whether a column has a key. -/
def mentions (t : Placeholders) (column : String) : Bool := t.names.values.contains column

/-- The declared values in the form in which they are sent. -/
def sentValues (t : Placeholders) : AttributeMap :=
  OrderedMap.ofList (t.values.entries.map fun e => (e.1, e.2.toAttribute))

/-- The keys of the columns to return, which are declared; nothing if there are no columns. -/
def projection (t : Placeholders) (columns : List String) : Option String × Placeholders :=
  if columns.isEmpty then (none, t)
  else
    let (keys, t) := t.nameKeys columns
    (some (", ".intercalate keys), t)

end Placeholders

end TableQuery
