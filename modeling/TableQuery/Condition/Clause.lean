import TableQuery.Error

/-!
# Clauses

A condition is a list of clauses. A clause says something about one column, or groups clauses of its
own, and names the connector that joins it to the clause before it. How columns and values are
referred to is left open: by the keys of a placeholder table, or directly.
-/

namespace TableQuery

inductive Connector where
  | and
  | or
  deriving DecidableEq

def Connector.text : Connector → String
  | .and => "and"
  | .or => "or"

/-! ## Comparisons -/

inductive Comparison where
  | equal
  | unequal
  | less
  | atMost
  | greater
  | atLeast
  deriving DecidableEq

namespace Comparison

def all : List Comparison := [.equal, .unequal, .less, .atMost, .greater, .atLeast]

def text : Comparison → String
  | .equal => "="
  | .unequal => "<>"
  | .less => "<"
  | .atMost => "<="
  | .greater => ">"
  | .atLeast => ">="

def ofToken? (token : String) : Option Comparison := all.find? fun c => c.text == token

end Comparison

/-! ## Functions -/

inductive ConditionFunction where
  | attributeExists
  | attributeNotExists
  | attributeType
  | beginsWith
  | contains
  | size
  deriving DecidableEq

namespace ConditionFunction

def all : List ConditionFunction :=
  [.attributeExists, .attributeNotExists, .attributeType, .beginsWith, .contains, .size]

def text : ConditionFunction → String
  | .attributeExists => "attribute_exists"
  | .attributeNotExists => "attribute_not_exists"
  | .attributeType => "attribute_type"
  | .beginsWith => "begins_with"
  | .contains => "contains"
  | .size => "size"

/-- The number of values that follow the column. -/
def arity : ConditionFunction → Nat
  | .attributeExists => 0
  | .attributeNotExists => 0
  | .attributeType => 1
  | .beginsWith => 1
  | .contains => 1
  | .size => 1

theorem arity_eq_zero_or_one (f : ConditionFunction) : f.arity = 0 ∨ f.arity = 1 := by
  cases f <;> decide

/-- Names of functions may be written in letters of either case. -/
def ofToken? (token : String) : Option ConditionFunction :=
  all.find? fun f => f.text.toList == token.toList.map Char.toLower

end ConditionFunction

/-! ## Predicates -/

/-- What a clause says. Columns are referred to by `ν`, values by `ω`. -/
inductive Predicate (ν ω : Type) where
  | basic (column : ν) (operator : Comparison) (value : ω)
  /-- Only the size is compared; other functions hold or do not. -/
  | function (f : ConditionFunction) (column : ν) (value : Option ω) (comparison : Comparison)
  | between (column : ν) (low high : ω) (negated : Bool)
  | membership (column : ν) (values : List ω) (negated : Bool)
  | nested (clauses : List (Connector × Predicate ν ω))
  /-- A clause that has no expression is kept until the condition is written. -/
  | unsupported (token : String) (reason : Unsupported)

/-- The connector of the first clause of a condition joins nothing. -/
abbrev Clause (ν ω : Type) := Connector × Predicate ν ω

/-- A predicate that refers to columns and values by their keys. -/
abbrev KeyedPredicate := Predicate String String

abbrev KeyedClause := Clause String String

end TableQuery
