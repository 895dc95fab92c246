import TableQuery.Request.Options
import TableQuery.Request.Conditions

/-!
# Requests

A request is about one table. It is put together step by step: options are set, and clauses are
added to its conditions. A step fails only where a shorthand is not known, and then changes nothing.
-/

namespace TableQuery

structure Request where
  tablePrefix : String := ""
  table : String
  options : Options := { index := none }
  conditions : Conditions := { filter := [] }

inductive Step where
  | set (setting : Setting)
  | add (slot : Slot) (calls : List Call)
  | addNamed (name : String) (arguments : Shorthand.Arguments)

namespace Request

/-- The name of the table at the store. -/
def tableName (r : Request) : String := r.tablePrefix ++ r.table

def set (r : Request) (setting : Setting) : Request := { r with options := r.options.set setting }

/-- Makes calls on the condition of a slot. -/
def add (r : Request) (slot : Slot) (calls : List Call) : Request :=
  { r with conditions := r.conditions.add slot calls }

/-- Adds a clause by the name of a shorthand. -/
def addNamed (r : Request) (name : String) (arguments : Shorthand.Arguments) :
    Except RequestError Request := do
  let shorthand ← Shorthand.named name
  let call ← shorthand.call arguments
  return r.add shorthand.slot [call]

def step (r : Request) : Step → Except RequestError Request
  | .set setting => .ok (r.set setting)
  | .add slot calls => .ok (r.add slot calls)
  | .addNamed name arguments => r.addNamed name arguments

def steps (r : Request) : List Step → Except RequestError Request
  | [] => .ok r
  | s :: rest => do
    let r ← r.step s
    r.steps rest

/-- Whether a clause speaks of one of the declared key columns, so that the store can look for the
items by their key. -/
def constrainsKey (r : Request) : Bool :=
  match r.options.keySchema with
  | some schema => schema.columns.any r.conditions.placeholders.mentions
  | none => false

end Request

end TableQuery
