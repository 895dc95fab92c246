/-!
# Operations

What a request can ask of the store, and which kind of response it gets.
-/

namespace TableQuery

inductive Operation where
  | getItem
  | putItem
  | deleteItem
  | updateItem
  | query
  | scan
  | batchGetItem
  | batchWriteItem
  deriving DecidableEq

/-- The shapes of responses that are decoded. -/
inductive ResponseKind where
  | singleItem
  | multipleItems
  | batchGetItems
  | batchWriteItems
  deriving DecidableEq

def ResponseKind.text : ResponseKind → String
  | .singleItem => "single_item"
  | .multipleItems => "multiple_items"
  | .batchGetItems => "batch_get_items"
  | .batchWriteItems => "batch_write_items"

namespace Operation

def all : List Operation :=
  [.getItem, .putItem, .deleteItem, .updateItem, .query, .scan, .batchGetItem, .batchWriteItem]

def text : Operation → String
  | .getItem => "GetItem"
  | .putItem => "PutItem"
  | .deleteItem => "DeleteItem"
  | .updateItem => "UpdateItem"
  | .query => "Query"
  | .scan => "Scan"
  | .batchGetItem => "BatchGetItem"
  | .batchWriteItem => "BatchWriteItem"

/-- The kind of the responses; nothing if they are returned as they are. -/
def responseKind? : Operation → Option ResponseKind
  | .getItem => some .singleItem
  | .updateItem => some .singleItem
  | .query => some .multipleItems
  | .scan => some .multipleItems
  | .batchGetItem => some .batchGetItems
  | .batchWriteItem => some .batchWriteItems
  | .putItem => none
  | .deleteItem => none

/-- Reads that can be asked to be consistent. -/
def isRead : Operation → Bool
  | .getItem => true
  | .query => true
  | .scan => true
  | _ => false

end Operation

end TableQuery
