import TableQuery.Error
import TableQuery.Condition.Expression
import TableQuery.Wire.ReturnValue

/-!
# Updates

What an update does to the attributes of an item: it sets them, counts them up or down, or removes
them. Assigning null to an attribute removes it. The expression of an update tells first what is
set, then what is removed.
-/

namespace TableQuery

/-- One change of an attribute. Columns are referred to by `ν`, values by `ω`. -/
inductive Change (ν ω : Type) where
  | set (column : ν) (value : ω)
  | increment (column : ν) (amount : ω)
  | decrement (column : ν) (amount : ω)
  | remove (column : ν)
  deriving DecidableEq

abbrev KeyedChange := Change String String

namespace Update

/-! ## Recording changes -/

/-- The change that assigns a value to a column. -/
def assignment (t : Placeholders) (column : String) (value : Value) : KeyedChange × Placeholders :=
  let (name, t) := t.nameKey column
  if value.isNull then (.remove name, t)
  else
    let (key, t) := t.valueKey value
    (.set name key, t)

def assignments (t : Placeholders) : List (String × Value) → List KeyedChange × Placeholders
  | [] => ([], t)
  | (column, value) :: rest =>
    let (change, t) := assignment t column value
    let (changes, t) := assignments t rest
    (change :: changes, t)

def assign (t : Placeholders) (item : Item) : List KeyedChange × Placeholders :=
  assignments t item.entries

def increment (t : Placeholders) (column : String) (amount : Value) : KeyedChange × Placeholders :=
  let (name, t) := t.nameKey column
  let (key, t) := t.valueKey amount
  (.increment name key, t)

def decrement (t : Placeholders) (column : String) (amount : Value) : KeyedChange × Placeholders :=
  let (name, t) := t.nameKey column
  let (key, t) := t.valueKey amount
  (.decrement name key, t)

/-! ## Writing the expression -/

/-- The expression of one change, on the left if it sets, on the right if it removes. -/
def entry (t : Placeholders) : KeyedChange → Except RequestError (String ⊕ String)
  | .set column value => do
    let column ← t.declaredName column
    let value ← t.declaredValue value
    return .inl (column ++ " = " ++ value)
  | .increment column amount => do
    let column ← t.declaredName column
    let amount ← t.declaredValue amount
    return .inl (column ++ " = " ++ column ++ " + " ++ amount)
  | .decrement column amount => do
    let column ← t.declaredName column
    let amount ← t.declaredValue amount
    return .inl (column ++ " = " ++ column ++ " - " ++ amount)
  | .remove column => do
    let column ← t.declaredName column
    return .inr column

/-- The entries of changes, those that set and those that remove, each in the order of the
changes. -/
def split (t : Placeholders) : List KeyedChange → Except RequestError (List String × List String)
  | [] => .ok ([], [])
  | change :: rest => do
    let entry ← entry t change
    let (sets, removals) ← split t rest
    match entry with
    | .inl set => return (set :: sets, removals)
    | .inr removal => return (sets, removal :: removals)

/-- Entries under their keyword; nothing if there are none. -/
def underKeyword (keyword : String) (entries : List String) : List String :=
  if entries.isEmpty then [] else [keyword ++ " " ++ ", ".intercalate entries]

/-- The expression, and what is returned of an updated item; nothing if there is nothing to do. -/
def expression (t : Placeholders) (changes : List KeyedChange) :
    Except RequestError (Option (String × Wire.ReturnValue)) := do
  let (sets, removals) ← split t changes
  match underKeyword "set" sets ++ underKeyword "remove" removals with
  | [] => return none
  | groups => return some (" ".intercalate groups, .updatedNew)

end Update

end TableQuery
