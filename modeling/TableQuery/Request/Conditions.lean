import TableQuery.Shorthand

/-!
# Conditions of a request

Three conditions, one in each slot, whose keys come from one placeholder table.
-/

namespace TableQuery

structure Conditions where
  placeholders : Placeholders := .empty
  filter : List KeyedClause := []
  condition : List KeyedClause := []
  keyCondition : List KeyedClause := []

namespace Conditions

/-- The clauses of a slot. -/
def clauses (c : Conditions) : Slot → List KeyedClause
  | .filter => c.filter
  | .condition => c.condition
  | .keyCondition => c.keyCondition

/-- Puts clauses after those of a slot. -/
def append (c : Conditions) (slot : Slot) (clauses : List KeyedClause) : Conditions :=
  match slot with
  | .filter => { c with filter := c.filter ++ clauses }
  | .condition => { c with condition := c.condition ++ clauses }
  | .keyCondition => { c with keyCondition := c.keyCondition ++ clauses }

/-- Makes calls on the condition of a slot. -/
def add (c : Conditions) (slot : Slot) (calls : List Call) : Conditions :=
  let (clauses, placeholders) := Call.clausesOfAll c.placeholders calls
  { c with placeholders }.append slot clauses

/-- The first slot that has clauses. -/
def occupied? (c : Conditions) : Option Slot := Slot.all.find? fun slot => !(c.clauses slot).isEmpty

end Conditions

end TableQuery
