import TableQuery.Request
import TableQuery.Update
import TableQuery.Wire.Parameters

/-!
# Parameters of a request

What is sent for an operation on one table or item. Everything that declares a key is done before
the declarations are written: clauses and updates have declared what they refer to when they
were recorded, and the columns to return are declared here.
-/

namespace TableQuery

namespace Request

/-- The parameters of an operation that is not a batch. The item is that of a put, the changes are
those of an update; their keys are declared in the table of the request. -/
def parameters (r : Request) (operation : Operation) (item : Item)
    (changes : List KeyedChange) : Except RequestError Wire.Parameters := do
  -- The columns are declared first: a clause may refer to the key of one.
  let (projection, t) := r.conditions.placeholders.projection r.options.columns
  let filter ← Condition.expression t r.conditions.filter
  let condition ← Condition.expression t r.conditions.condition
  let keyCondition ← Condition.expression t r.conditions.keyCondition
  let update ← Update.expression t changes
  return {
    tableName := some r.tableName
    indexName := r.options.sentIndex
    key := r.options.key.toAttributes
    item := item.toAttributes
    filterExpression := filter
    conditionExpression := condition
    keyConditionExpression := keyCondition
    projectionExpression := projection
    updateExpression := update.map (·.1)
    returnValues := update.map (·.2)
    limit := r.options.limit
    scanIndexForward := r.options.scanIndexForward
    exclusiveStartKey := r.options.exclusiveStartKey
    consistentRead := if operation.isRead then sentConsistency r.options.consistentRead else none
    expressionAttributeNames := t.names
    expressionAttributeValues := t.sentValues }

end Request

/-! ## Batches -/

/-- One entry of a batch of writes. -/
inductive BatchWrite where
  | put (item : Item)
  | delete (key : Item)

def BatchWrite.write : BatchWrite → Wire.WriteRequest
  | .put item => .put item.toAttributes
  | .delete key => .delete key.toAttributes

namespace Batch

/-- A batch of reads from one table. Columns to return are declared beside the keys. -/
def get (tableName : String) (keys : List Item) (projection : Option String)
    (names : OrderedMap String) (consistentRead : Option Bool) : Wire.RequestItems :=
  .get (OrderedMap.ofList [(tableName,
    { keys := keys.map Item.toAttributes
      projectionExpression := projection
      expressionAttributeNames := names
      consistentRead := sentConsistency consistentRead })])

/-- A batch of writes to one table. -/
def write (tableName : String) (requests : List BatchWrite) : Wire.RequestItems :=
  .write (OrderedMap.ofList [(tableName, requests.map BatchWrite.write)])

end Batch

namespace Request

/-- The declarations of the columns to return. -/
def selectedNames (r : Request) : OrderedMap String :=
  OrderedMap.ofList
    ((r.conditions.placeholders.nameKeys r.options.columns).1.zip r.options.columns)

def batchGetParameters (r : Request) (keys : List Item) : Wire.Parameters :=
  let (projection, _) := r.conditions.placeholders.projection r.options.columns
  { requestItems :=
      some (Batch.get r.tableName keys projection r.selectedNames r.options.consistentRead) }

def batchWriteParameters (r : Request) (requests : List BatchWrite) : Wire.Parameters :=
  { requestItems := some (Batch.write r.tableName requests) }

end Request

end TableQuery
