import TableQuery.Error
import TableQuery.Value

/-!
# Key schemas

The columns that identify the items of a table: the partition column, and maybe a sort column.
-/

namespace TableQuery

structure KeySchema where
  partition : String
  sort : Option String := none

namespace KeySchema

/-- The partition column comes first. -/
def columns (s : KeySchema) : List String := s.partition :: s.sort.toList

/-- The value of a key column, unless it is blank. -/
def keyValue? (item : Item) (column : String) : Option Value :=
  (item.get? column).filter fun v => !v.isBlank

/-- The columns that an item has no value for. -/
def missing (s : KeySchema) (item : Item) : List String :=
  s.columns.filter fun column => (keyValue? item column).isNone

/-- The key of an item. -/
def key (s : KeySchema) (item : Item) : Except RequestError Item :=
  match s.missing item with
  | [] => .ok (OrderedMap.ofList
      (s.columns.filterMap fun column => (keyValue? item column).map (column, ·)))
  | missing => .error (.missingKey (.columns missing))

/-- Checks that an item has a key. -/
def ensureKey (s : KeySchema) (item : Item) : Except RequestError Unit :=
  (s.key item).map fun _ => ()

end KeySchema

end TableQuery
