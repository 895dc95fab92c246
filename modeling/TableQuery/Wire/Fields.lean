import TableQuery.AttributeValue

/-!
# Fields of records

How the fields of a record are written: in the order of their declaration, and left out where there
is nothing to tell.
-/

namespace TableQuery.Wire

/-- A record is written as the object of the fields that are present. -/
def recordJson (fields : List (Option (String × Json))) : Json := .object (fields.filterMap id)

def always (name : String) (j : Json) : Option (String × Json) := some (name, j)

/-- A field that is left out if it has no value. -/
def ifSome {α : Type} (name : String) (write : α → Json) (a : Option α) : Option (String × Json) :=
  a.map fun a => (name, write a)

/-- A map that is left out if it is empty. -/
def ifEntries {α : Type} (name : String) (write : OrderedMap α → Json) (m : OrderedMap α) :
    Option (String × Json) :=
  if m.isEmpty then none else some (name, write m)

/-- A list that is left out if it is empty. -/
def ifElements {α : Type} (name : String) (write : List α → Json) (as : List α) :
    Option (String × Json) :=
  if as.isEmpty then none else some (name, write as)

def listJson {α : Type} (write : α → Json) (as : List α) : Json := .array (as.map write)

def mapJson {α : Type} (write : α → Json) (m : OrderedMap α) : Json :=
  .object (m.entries.map fun e => (e.1, write e.2))

def floatJson (x : Float) : Json := .number (.float x)

def int32Json (n : Int32) : Json := .ofInt n.toInt

end TableQuery.Wire
