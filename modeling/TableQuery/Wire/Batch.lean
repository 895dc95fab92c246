import TableQuery.Wire.Fields

/-!
# Batch entries

What a batch request holds for one table: the keys to read, or the items to put and the keys to
delete. Responses return such entries for what was left undone.
-/

namespace TableQuery.Wire

open Json

structure KeysAndAttributes where
  keys : List AttributeMap := []
  projectionExpression : Option String := none
  expressionAttributeNames : OrderedMap String := ∅
  consistentRead : Option Bool := none

def KeysAndAttributes.toJson (k : KeysAndAttributes) : Json :=
  recordJson [
    always "Keys" (listJson AttributeMap.toJson k.keys),
    ifSome "ProjectionExpression" .string k.projectionExpression,
    ifEntries "ExpressionAttributeNames" (mapJson .string) k.expressionAttributeNames,
    ifSome "ConsistentRead" .bool k.consistentRead]

def KeysAndAttributes.fields : List (RecordField KeysAndAttributes) := [
  .of "Keys" .required (readList AttributeMap.read) fun x k => { k with keys := x },
  .of "ProjectionExpression" .optional (readOption readString) fun x k =>
    { k with projectionExpression := x },
  .of "ExpressionAttributeNames" .defaulted (readMap readString) fun x k =>
    { k with expressionAttributeNames := x },
  .of "ConsistentRead" .optional (readOption readBool) fun x k => { k with consistentRead := x }]

def KeysAndAttributes.read (form : Form) : Reader KeysAndAttributes :=
  readRecord form "KeysAndAttributes" fields {}

structure PutRequest where
  item : AttributeMap := ∅

def PutRequest.toJson (p : PutRequest) : Json := recordJson [always "Item" p.item.toJson]

def PutRequest.fields : List (RecordField PutRequest) :=
  [.of "Item" .required AttributeMap.read fun x p => { p with item := x }]

def PutRequest.read (form : Form) : Reader PutRequest := readRecord form "PutRequest" fields {}

structure DeleteRequest where
  key : AttributeMap := ∅

def DeleteRequest.toJson (d : DeleteRequest) : Json := recordJson [always "Key" d.key.toJson]

def DeleteRequest.fields : List (RecordField DeleteRequest) :=
  [.of "Key" .required AttributeMap.read fun x d => { d with key := x }]

def DeleteRequest.read (form : Form) : Reader DeleteRequest :=
  readRecord form "DeleteRequest" fields {}

/-- A put or a delete. Responses may hold entries with neither or both. -/
structure WriteRequest where
  putRequest : Option PutRequest := none
  deleteRequest : Option DeleteRequest := none

def WriteRequest.put (item : AttributeMap) : WriteRequest := { putRequest := some ⟨item⟩ }

def WriteRequest.delete (key : AttributeMap) : WriteRequest := { deleteRequest := some ⟨key⟩ }

def WriteRequest.toJson (w : WriteRequest) : Json :=
  recordJson [
    ifSome "PutRequest" PutRequest.toJson w.putRequest,
    ifSome "DeleteRequest" DeleteRequest.toJson w.deleteRequest]

def WriteRequest.fields (form : Form) : List (RecordField WriteRequest) := [
  .of "PutRequest" .optional (readOption (PutRequest.read form)) fun x w =>
    { w with putRequest := x },
  .of "DeleteRequest" .optional (readOption (DeleteRequest.read form)) fun x w =>
    { w with deleteRequest := x }]

def WriteRequest.read (form : Form) : Reader WriteRequest :=
  readRecord form "WriteRequest" (fields form) {}

end TableQuery.Wire
