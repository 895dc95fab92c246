import TableQuery.Request

/-!
# Adding clauses to a request

For each slot there are methods that add one clause, joined by `and` or by `or`: a comparison, a
membership, a range or a group. A plain `where` goes to the filter.
-/

namespace TableQuery.Request

/-! ## Clauses of the filter -/

def filter (r : Request) (column : String) (operand : Operand) : Request :=
  r.add .filter [.compare .and column operand]

def filterIn (r : Request) (column : String) (values : List Value) : Request :=
  r.add .filter [.membership .and column values false]

def filterBetween (r : Request) (column : String) (low high : Value) : Request :=
  r.add .filter [.between .and column low high false]

def filterNested (r : Request) (calls : List Call) : Request :=
  r.add .filter [.group .and calls]

def orFilter (r : Request) (column : String) (operand : Operand) : Request :=
  r.add .filter [.compare .or column operand]

def orFilterIn (r : Request) (column : String) (values : List Value) : Request :=
  r.add .filter [.membership .or column values false]

def orFilterBetween (r : Request) (column : String) (low high : Value) : Request :=
  r.add .filter [.between .or column low high false]

def orFilterNested (r : Request) (calls : List Call) : Request :=
  r.add .filter [.group .or calls]

/-! ## Clauses of the condition -/

def condition (r : Request) (column : String) (operand : Operand) : Request :=
  r.add .condition [.compare .and column operand]

def conditionIn (r : Request) (column : String) (values : List Value) : Request :=
  r.add .condition [.membership .and column values false]

def conditionBetween (r : Request) (column : String) (low high : Value) : Request :=
  r.add .condition [.between .and column low high false]

def conditionNested (r : Request) (calls : List Call) : Request :=
  r.add .condition [.group .and calls]

def orCondition (r : Request) (column : String) (operand : Operand) : Request :=
  r.add .condition [.compare .or column operand]

def orConditionIn (r : Request) (column : String) (values : List Value) : Request :=
  r.add .condition [.membership .or column values false]

def orConditionBetween (r : Request) (column : String) (low high : Value) : Request :=
  r.add .condition [.between .or column low high false]

def orConditionNested (r : Request) (calls : List Call) : Request :=
  r.add .condition [.group .or calls]

/-! ## Clauses of the key condition -/

def keyCondition (r : Request) (column : String) (operand : Operand) : Request :=
  r.add .keyCondition [.compare .and column operand]

def keyConditionIn (r : Request) (column : String) (values : List Value) : Request :=
  r.add .keyCondition [.membership .and column values false]

def keyConditionBetween (r : Request) (column : String) (low high : Value) : Request :=
  r.add .keyCondition [.between .and column low high false]

def keyConditionNested (r : Request) (calls : List Call) : Request :=
  r.add .keyCondition [.group .and calls]

def orKeyCondition (r : Request) (column : String) (operand : Operand) : Request :=
  r.add .keyCondition [.compare .or column operand]

def orKeyConditionIn (r : Request) (column : String) (values : List Value) : Request :=
  r.add .keyCondition [.membership .or column values false]

def orKeyConditionBetween (r : Request) (column : String) (low high : Value) : Request :=
  r.add .keyCondition [.between .or column low high false]

def orKeyConditionNested (r : Request) (calls : List Call) : Request :=
  r.add .keyCondition [.group .or calls]

/-! ## Clauses that name no slot -/

def whereColumn (r : Request) (column : String) (operand : Operand) : Request :=
  r.filter column operand

def whereIn (r : Request) (column : String) (values : List Value) : Request :=
  r.filterIn column values

def whereBetween (r : Request) (column : String) (low high : Value) : Request :=
  r.filterBetween column low high

def whereNested (r : Request) (calls : List Call) : Request := r.filterNested calls

def orWhereColumn (r : Request) (column : String) (operand : Operand) : Request :=
  r.orFilter column operand

def orWhereIn (r : Request) (column : String) (values : List Value) : Request :=
  r.orFilterIn column values

def orWhereBetween (r : Request) (column : String) (low high : Value) : Request :=
  r.orFilterBetween column low high

def orWhereNested (r : Request) (calls : List Call) : Request := r.orFilterNested calls

end TableQuery.Request
