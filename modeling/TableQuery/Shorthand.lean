import TableQuery.Condition.Call

/-!
# Slots and shorthands

A request has three conditions, each in a slot of its own. A clause can be added to a slot by the
name of a shorthand, which tells the slot, the connector and the arguments that it takes.
-/

namespace TableQuery

inductive Slot where
  | filter
  | condition
  | keyCondition
  deriving DecidableEq

namespace Slot

def all : List Slot := [.filter, .condition, .keyCondition]

/-- The name under which the expression of a slot is sent. -/
def expressionName : Slot → String
  | .filter => "FilterExpression"
  | .condition => "ConditionExpression"
  | .keyCondition => "KeyConditionExpression"

end Slot

namespace Shorthand

/-- The kinds of arguments. -/
inductive Shape where
  | comparison
  | membership
  | range
  deriving DecidableEq

def Shape.text : Shape → String
  | .comparison => "where"
  | .membership => "in"
  | .range => "between"

inductive Arguments where
  | comparison (column : String) (operand : Operand)
  | membership (column : String) (values : List Value)
  | range (column : String) (low high : Value)

namespace Arguments

def shape : Arguments → Shape
  | .comparison .. => .comparison
  | .membership .. => .membership
  | .range .. => .range

/-- The call with these arguments. -/
def call (connector : Connector) : Arguments → Call
  | .comparison column operand => .compare connector column operand
  | .membership column values => .membership connector column values false
  | .range column low high => .between connector column low high false

end Arguments

end Shorthand

structure Shorthand where
  name : String
  slot : Slot
  connector : Connector
  shape : Shorthand.Shape
  deriving DecidableEq

namespace Shorthand

def all : List Shorthand := [
  ⟨"filter", .filter, .and, .comparison⟩,
  ⟨"orFilter", .filter, .or, .comparison⟩,
  ⟨"filterIn", .filter, .and, .membership⟩,
  ⟨"orFilterIn", .filter, .or, .membership⟩,
  ⟨"filterBetween", .filter, .and, .range⟩,
  ⟨"orFilterBetween", .filter, .or, .range⟩,
  ⟨"condition", .condition, .and, .comparison⟩,
  ⟨"orCondition", .condition, .or, .comparison⟩,
  ⟨"conditionIn", .condition, .and, .membership⟩,
  ⟨"orConditionIn", .condition, .or, .membership⟩,
  ⟨"conditionBetween", .condition, .and, .range⟩,
  ⟨"orConditionBetween", .condition, .or, .range⟩,
  ⟨"keyCondition", .keyCondition, .and, .comparison⟩,
  ⟨"orKeyCondition", .keyCondition, .or, .comparison⟩,
  ⟨"keyConditionIn", .keyCondition, .and, .membership⟩,
  ⟨"orKeyConditionIn", .keyCondition, .or, .membership⟩,
  ⟨"keyConditionBetween", .keyCondition, .and, .range⟩,
  ⟨"orKeyConditionBetween", .keyCondition, .or, .range⟩]

def named (name : String) : Except RequestError Shorthand :=
  match all.find? (·.name == name) with
  | some s => .ok s
  | none => .error (.undefinedMethod name)

/-- The call that a shorthand stands for. Arguments of another shape make it an unknown method. -/
def call (s : Shorthand) (arguments : Arguments) : Except RequestError Call :=
  if arguments.shape = s.shape then .ok (arguments.call s.connector)
  else .error (.undefinedMethod (s.name ++ "(" ++ arguments.shape.text ++ " arguments)"))

end Shorthand

end TableQuery
