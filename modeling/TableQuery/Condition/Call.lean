import TableQuery.Condition.Clause
import TableQuery.Placeholders

/-!
# Calls on a condition

A caller adds to a condition by calls. The columns and values of a call are declared as soon as it
is made, each column before the values that go with it, so the clauses hold keys only.
-/

namespace TableQuery

/-! ## Comparing a column -/

/-- What a column is compared with. A token may be an operator, the name of a function, or, where it
is neither and stands alone, the string that the column has to equal. -/
inductive Operand where
  | equals (value : Value)
  | bare (token : String)
  | operator (token : String) (value : Value)

namespace Operand

/-- The predicate of a token with a value. -/
def applied {ν ω : Type} (column : ν) (token : String) (value : ω) : Predicate ν ω :=
  match Comparison.ofToken? token with
  | some c => .basic column c value
  | none =>
    match ConditionFunction.ofToken? token with
    | some f =>
      if f.arity = 0 then .unsupported token .functionWithValue
      else .function f column (some value) .equal
    | none => .unsupported token .unknownOperator

/-- The predicate of a token alone; nothing if the token is neither operator nor function. -/
def alone? {ν ω : Type} (column : ν) (token : String) : Option (Predicate ν ω) :=
  match Comparison.ofToken? token with
  | some _ => some (.unsupported token .comparisonWithoutValue)
  | none =>
    (ConditionFunction.ofToken? token).map fun f =>
      if f.arity = 0 then .function f column none .equal
      else .unsupported token .functionWithoutValue

def equality (t : Placeholders) (column : String) (value : Value) :
    KeyedPredicate × Placeholders :=
  let (key, t) := t.valueKey value
  (.basic column .equal key, t)

/-- The predicate of an operand on a column. -/
def predicate (t : Placeholders) (column : String) (operand : Operand) :
    KeyedPredicate × Placeholders :=
  let (column, t) := t.nameKey column
  match operand with
  | .equals value => equality t column value
  | .bare token =>
    match alone? column token with
    | some p => (p, t)
    | none => equality t column (.string token)
  | .operator token value =>
    let (key, t) := t.valueKey value
    (applied column token key, t)

end Operand

/-! ## Calls -/

inductive Call where
  | compare (connector : Connector) (column : String) (operand : Operand)
  | size (connector : Connector) (column operator : String) (value : Value)
  | membership (connector : Connector) (column : String) (values : List Value) (negated : Bool)
  | between (connector : Connector) (column : String) (low high : Value) (negated : Bool)
  /-- A group without clauses is left out. -/
  | group (connector : Connector) (calls : List Call)
  /-- A group of clauses whose keys may come from another table. -/
  | graft (connector : Connector) (clauses : List KeyedClause)

namespace Call

def sizePredicate (t : Placeholders) (column operator : String) (value : Value) :
    KeyedPredicate × Placeholders :=
  let (column, t) := t.nameKey column
  let (key, t) := t.valueKey value
  match Comparison.ofToken? operator with
  | some c => (.function .size column (some key) c, t)
  | none => (.unsupported operator .sizeWithoutComparison, t)

def membershipPredicate (t : Placeholders) (column : String) (values : List Value)
    (negated : Bool) : KeyedPredicate × Placeholders :=
  let (column, t) := t.nameKey column
  let (keys, t) := t.valueKeys values
  (.membership column keys negated, t)

def betweenPredicate (t : Placeholders) (column : String) (low high : Value) (negated : Bool) :
    KeyedPredicate × Placeholders :=
  let (column, t) := t.nameKey column
  let (low, t) := t.valueKey low
  let (high, t) := t.valueKey high
  (.between column low high negated, t)

def groupClauses {ν ω : Type} (connector : Connector) (clauses : List (Clause ν ω)) :
    List (Clause ν ω) :=
  if clauses.isEmpty then [] else [(connector, .nested clauses)]

mutual

/-- The clauses that a call adds: one, or none for a group without clauses. -/
def clauses (t : Placeholders) : Call → List KeyedClause × Placeholders
  | .compare connector column operand =>
    let (p, t) := operand.predicate t column
    ([(connector, p)], t)
  | .size connector column operator value =>
    let (p, t) := sizePredicate t column operator value
    ([(connector, p)], t)
  | .membership connector column values negated =>
    let (p, t) := membershipPredicate t column values negated
    ([(connector, p)], t)
  | .between connector column low high negated =>
    let (p, t) := betweenPredicate t column low high negated
    ([(connector, p)], t)
  | .group connector calls =>
    let (clauses, t) := clausesOfAll t calls
    (groupClauses connector clauses, t)
  | .graft connector clauses => (groupClauses connector clauses, t)

/-- The clauses of calls made one after the other. -/
def clausesOfAll (t : Placeholders) : List Call → List KeyedClause × Placeholders
  | [] => ([], t)
  | call :: rest =>
    let (first, t) := call.clauses t
    let (others, t) := clausesOfAll t rest
    (first ++ others, t)

end

end Call

end TableQuery
