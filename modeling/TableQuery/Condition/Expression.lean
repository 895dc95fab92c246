import TableQuery.Condition.Clause
import TableQuery.Placeholders

/-!
# Condition expressions

A condition is written as an expression over the keys of a placeholder table. Clauses are joined by
their connectors, and everything that holds an `and`, `or` or comma of its own stands in
parentheses. Every key has to be declared, and every clause has to have an expression; otherwise the
first offence is reported.
-/

namespace TableQuery

namespace Placeholders

/-- A key of a name, if it is declared. -/
def declaredName (t : Placeholders) (key : String) : Except RequestError String :=
  if t.declaresName key then .ok key else .error (.danglingPlaceholder key)

/-- A key of a value, if it is declared. -/
def declaredValue (t : Placeholders) (key : String) : Except RequestError String :=
  if t.declaresValue key then .ok key else .error (.danglingPlaceholder key)

def declaredValues (t : Placeholders) : List String → Except RequestError (List String)
  | [] => .ok []
  | key :: rest => do
    let key ← t.declaredValue key
    let keys ← t.declaredValues rest
    return key :: keys

end Placeholders

namespace Condition

def parenthesized (body : String) : String := "(" ++ body ++ ")"

def grouped (negated : Bool) (body : String) : String :=
  if negated then "not " ++ parenthesized body else parenthesized body

def writeBasic (t : Placeholders) (column : String) (operator : Comparison) (value : String) :
    Except RequestError String := do
  let column ← t.declaredName column
  let value ← t.declaredValue value
  return column ++ " " ++ operator.text ++ " " ++ value

def writeFunction (t : Placeholders) (f : ConditionFunction) (column : String)
    (value : Option String) (comparison : Comparison) : Except RequestError String := do
  let column ← t.declaredName column
  match value with
  | some value =>
    let value ← t.declaredValue value
    if f = .size then
      return f.text ++ parenthesized column ++ " " ++ comparison.text ++ " " ++ value
    else return f.text ++ parenthesized (column ++ ", " ++ value)
  | none =>
    if f.arity = 0 then return f.text ++ parenthesized column
    else .error (.unsupportedPredicate f.text .functionWithoutValue)

def writeBetween (t : Placeholders) (column low high : String) (negated : Bool) :
    Except RequestError String := do
  let column ← t.declaredName column
  let low ← t.declaredValue low
  let high ← t.declaredValue high
  return grouped negated (column ++ " between " ++ low ++ " and " ++ high)

def writeMembership (t : Placeholders) (column : String) (values : List String)
    (negated : Bool) : Except RequestError String := do
  if values.isEmpty then .error (.unsupportedPredicate "in" .noMembers)
  else
    let values ← t.declaredValues values
    let column ← t.declaredName column
    return grouped negated (column ++ " in " ++ parenthesized (", ".intercalate values))

mutual

def writePredicate (t : Placeholders) : KeyedPredicate → Except RequestError String
  | .basic column operator value => writeBasic t column operator value
  | .function f column value comparison => writeFunction t f column value comparison
  | .between column low high negated => writeBetween t column low high negated
  | .membership column values negated => writeMembership t column values negated
  | .nested clauses => (writeClauses t clauses).map parenthesized
  | .unsupported token reason => .error (.unsupportedPredicate token reason)

/-- The clauses of a condition, the first without its connector. -/
def writeClauses (t : Placeholders) : List KeyedClause → Except RequestError String
  | [] => .ok ""
  | (_, p) :: rest => do
    let first ← writePredicate t p
    let others ← writeFollowing t rest
    return first ++ others

/-- Clauses that follow others, each with its connector. -/
def writeFollowing (t : Placeholders) : List KeyedClause → Except RequestError String
  | [] => .ok ""
  | (connector, p) :: rest => do
    let first ← writePredicate t p
    let others ← writeFollowing t rest
    return " " ++ connector.text ++ " " ++ first ++ others

end

/-- The expression of a condition; nothing if it has no clauses. -/
def expression (t : Placeholders) (clauses : List KeyedClause) :
    Except RequestError (Option String) :=
  if clauses.isEmpty then .ok none else (writeClauses t clauses).map some

end Condition

end TableQuery
