import TableQuery.Wire.Batch
import TableQuery.Wire.Capacity

/-!
# Response bodies

One record for each kind of response. Every field may be absent, so the empty object is a response
of every kind.
-/

namespace TableQuery.Wire

open Json

/-- The response to an operation on one item. -/
structure ItemBody where
  item : Option AttributeMap := none
  attributes : Option AttributeMap := none
  consumedCapacity : Option ConsumedCapacity := none

def ItemBody.toJson (o : ItemBody) : Json :=
  recordJson [
    ifSome "Item" AttributeMap.toJson o.item,
    ifSome "Attributes" AttributeMap.toJson o.attributes,
    ifSome "ConsumedCapacity" ConsumedCapacity.toJson o.consumedCapacity]

def ItemBody.fields (form : Form) : List (RecordField ItemBody) := [
  .of "Item" .defaulted (readOption AttributeMap.read) fun x o => { o with item := x },
  .of "Attributes" .defaulted (readOption AttributeMap.read) fun x o => { o with attributes := x },
  .of "ConsumedCapacity" .defaulted (readOption (ConsumedCapacity.read form)) fun x o =>
    { o with consumedCapacity := x }]

def ItemBody.read (form : Form) : Reader ItemBody :=
  readRecord form "ItemOutput" (fields form) {}

/-- The response to a query or a scan. -/
structure ItemsBody where
  items : List AttributeMap := []
  count : Option Int32 := none
  scannedCount : Option Int32 := none
  lastEvaluatedKey : Option AttributeMap := none
  consumedCapacity : Option ConsumedCapacity := none

def ItemsBody.toJson (o : ItemsBody) : Json :=
  recordJson [
    always "Items" (listJson AttributeMap.toJson o.items),
    ifSome "Count" int32Json o.count,
    ifSome "ScannedCount" int32Json o.scannedCount,
    ifSome "LastEvaluatedKey" AttributeMap.toJson o.lastEvaluatedKey,
    ifSome "ConsumedCapacity" ConsumedCapacity.toJson o.consumedCapacity]

def ItemsBody.fields (form : Form) : List (RecordField ItemsBody) := [
  .of "Items" .defaulted (readList AttributeMap.read) fun x o => { o with items := x },
  .of "Count" .defaulted (readOption readInt32) fun x o => { o with count := x },
  .of "ScannedCount" .defaulted (readOption readInt32) fun x o => { o with scannedCount := x },
  .of "LastEvaluatedKey" .defaulted (readOption AttributeMap.read) fun x o =>
    { o with lastEvaluatedKey := x },
  .of "ConsumedCapacity" .defaulted (readOption (ConsumedCapacity.read form)) fun x o =>
    { o with consumedCapacity := x }]

def ItemsBody.read (form : Form) : Reader ItemsBody :=
  readRecord form "ItemsOutput" (fields form) {}

/-- The response to a batch of reads. -/
structure BatchGetBody where
  responses : OrderedMap (List AttributeMap) := ∅
  unprocessedKeys : OrderedMap KeysAndAttributes := ∅
  consumedCapacity : List ConsumedCapacity := []

def BatchGetBody.toJson (o : BatchGetBody) : Json :=
  recordJson [
    always "Responses" (mapJson (listJson AttributeMap.toJson) o.responses),
    ifEntries "UnprocessedKeys" (mapJson KeysAndAttributes.toJson) o.unprocessedKeys,
    ifElements "ConsumedCapacity" (listJson ConsumedCapacity.toJson) o.consumedCapacity]

def BatchGetBody.fields (form : Form) : List (RecordField BatchGetBody) := [
  .of "Responses" .defaulted (readMap (readList AttributeMap.read)) fun x o =>
    { o with responses := x },
  .of "UnprocessedKeys" .defaulted (readMap (KeysAndAttributes.read form)) fun x o =>
    { o with unprocessedKeys := x },
  .of "ConsumedCapacity" .defaulted (readList (ConsumedCapacity.read form)) fun x o =>
    { o with consumedCapacity := x }]

def BatchGetBody.read (form : Form) : Reader BatchGetBody :=
  readRecord form "BatchGetItemOutput" (fields form) {}

/-- The response to a batch of writes. -/
structure BatchWriteBody where
  unprocessedItems : OrderedMap (List WriteRequest) := ∅
  consumedCapacity : List ConsumedCapacity := []

def BatchWriteBody.toJson (o : BatchWriteBody) : Json :=
  recordJson [
    ifEntries "UnprocessedItems" (mapJson (listJson WriteRequest.toJson)) o.unprocessedItems,
    ifElements "ConsumedCapacity" (listJson ConsumedCapacity.toJson) o.consumedCapacity]

def BatchWriteBody.fields (form : Form) : List (RecordField BatchWriteBody) := [
  .of "UnprocessedItems" .defaulted (readMap (readList (WriteRequest.read form))) fun x o =>
    { o with unprocessedItems := x },
  .of "ConsumedCapacity" .defaulted (readList (ConsumedCapacity.read form)) fun x o =>
    { o with consumedCapacity := x }]

def BatchWriteBody.read (form : Form) : Reader BatchWriteBody :=
  readRecord form "BatchWriteItemOutput" (fields form) {}

end TableQuery.Wire
