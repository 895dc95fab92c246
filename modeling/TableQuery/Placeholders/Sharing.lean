import TableQuery.Placeholders

/-!
# Shared placeholder tables

Several handles may belong to one table. What is declared through one of them is seen through all;
handles of different tables know nothing of each other.
-/

namespace TableQuery

/-- Tables, and for each handle the index of its table. -/
structure SharedTables where
  tables : List Placeholders
  owners : List Nat

namespace SharedTables

/-- One handle with an empty table of its own. -/
def start : SharedTables := ⟨[.empty], [0]⟩

def table (s : SharedTables) (handle : Nat) : Placeholders :=
  ((s.owners[handle]?).bind (s.tables[·]?)).getD .empty

/-- Runs an operation on the table of a handle. -/
def update {α : Type} (s : SharedTables) (handle : Nat) (f : Placeholders → α × Placeholders) :
    α × SharedTables :=
  let (a, t) := f (s.table handle)
  match s.owners[handle]? with
  | some owner => (a, { s with tables := s.tables.set owner t })
  | none => (a, s)

/-- A new handle with an empty table of its own; returns its index. -/
def create (s : SharedTables) : Nat × SharedTables :=
  (s.owners.length, ⟨s.tables ++ [.empty], s.owners ++ [s.tables.length]⟩)

/-- A new handle of the table of another; returns its index. -/
def clone (s : SharedTables) (handle : Nat) : Nat × SharedTables :=
  match s.owners[handle]? with
  | some owner => (s.owners.length, { s with owners := s.owners ++ [owner] })
  | none => s.create

/-- Whether two handles belong to one table. -/
def shares (s : SharedTables) (a b : Nat) : Bool := s.owners[a]? == s.owners[b]?

end SharedTables

end TableQuery
