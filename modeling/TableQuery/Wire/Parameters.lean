import TableQuery.Wire.Batch
import TableQuery.Wire.ReturnValue

/-!
# Parameters of a request

All that a request sends, whatever its operation. What it does not need is left out, so that
scanning a table sends the name of the table and nothing else.
-/

namespace TableQuery.Wire

/-- What a batch request sends, by the names of the tables. -/
inductive RequestItems where
  | get (tables : OrderedMap KeysAndAttributes)
  | write (tables : OrderedMap (List WriteRequest))

def RequestItems.toJson : RequestItems → Json
  | .get tables => mapJson KeysAndAttributes.toJson tables
  | .write tables => mapJson (listJson WriteRequest.toJson) tables

structure Parameters where
  tableName : Option String := none
  indexName : Option String := none
  key : AttributeMap := ∅
  item : AttributeMap := ∅
  filterExpression : Option String := none
  conditionExpression : Option String := none
  keyConditionExpression : Option String := none
  projectionExpression : Option String := none
  updateExpression : Option String := none
  returnValues : Option ReturnValue := none
  requestItems : Option RequestItems := none
  limit : Option Int32 := none
  scanIndexForward : Option Bool := none
  exclusiveStartKey : AttributeMap := ∅
  consistentRead : Option Bool := none
  expressionAttributeNames : OrderedMap String := ∅
  expressionAttributeValues : AttributeMap := ∅

namespace Parameters

instance : Inhabited Parameters := ⟨{ tableName := none }⟩

def ofTable (table : String) : Parameters := { tableName := some table }

def toJson (p : Parameters) : Json :=
  recordJson [
    ifSome "TableName" .string p.tableName,
    ifSome "IndexName" .string p.indexName,
    ifEntries "Key" AttributeMap.toJson p.key,
    ifEntries "Item" AttributeMap.toJson p.item,
    ifSome "FilterExpression" .string p.filterExpression,
    ifSome "ConditionExpression" .string p.conditionExpression,
    ifSome "KeyConditionExpression" .string p.keyConditionExpression,
    ifSome "ProjectionExpression" .string p.projectionExpression,
    ifSome "UpdateExpression" .string p.updateExpression,
    ifSome "ReturnValues" ReturnValue.toJson p.returnValues,
    ifSome "RequestItems" RequestItems.toJson p.requestItems,
    ifSome "Limit" int32Json p.limit,
    ifSome "ScanIndexForward" .bool p.scanIndexForward,
    ifEntries "ExclusiveStartKey" AttributeMap.toJson p.exclusiveStartKey,
    ifSome "ConsistentRead" .bool p.consistentRead,
    ifEntries "ExpressionAttributeNames" (mapJson .string) p.expressionAttributeNames,
    ifEntries "ExpressionAttributeValues" AttributeMap.toJson p.expressionAttributeValues]

/-- The generic value of the body that is sent. -/
def body (p : Parameters) : Json := p.toJson.canonical

end Parameters

end TableQuery.Wire
