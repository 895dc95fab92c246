import TableQuery.AttributeValue.OfValue
import TableQuery.Error
import TableQuery.Wire.Body

/-!
# Results

What a response tells, decoded: the items, and beside them what the store says about the call. A
response is decoded as a whole or not at all.
-/

namespace TableQuery

open Wire (ConsumedCapacity KeysAndAttributes WriteRequest)

/-- The answer of the store to one call. -/
structure Response where
  status : Nat := 200
  body : Json

structure Metadata where
  status : Nat
  count : Option Int32 := none
  scannedCount : Option Int32 := none
  /-- Where the next page begins; there is none after the last page. -/
  lastEvaluatedKey : Option AttributeMap := none
  consumedCapacity : List ConsumedCapacity := []
  unprocessedKeys : OrderedMap KeysAndAttributes := ∅

/-- One item as it was found, or the attributes that a write returns. -/
structure SingleItem where
  item : Option Item
  attributes : Option Item
  metadata : Metadata

/-- The items of one page of a query or a scan. -/
structure Page where
  items : List Item
  metadata : Metadata

/-- The items of a batch of reads, by table. -/
structure BatchItems where
  responses : OrderedMap (List Item)
  metadata : Metadata

/-- What is left to do of a batch of writes, by table. -/
structure BatchRemainder where
  unprocessed : OrderedMap (List WriteRequest)
  metadata : Metadata

/-- The number of items by the account of the store, or, if it gives none, as they are counted. -/
def Page.itemCount (p : Page) : Nat :=
  match p.metadata.count with
  | some n => if 0 ≤ n.toInt then n.toInt.toNat else p.items.length
  | none => p.items.length

/-- The items of all tables, table by table. -/
def BatchItems.items (b : BatchItems) : List Item := b.responses.values.flatten

def BatchRemainder.isEmpty (b : BatchRemainder) : Bool := b.unprocessed.values.all List.isEmpty

/-! ## Decoding -/

namespace Response

variable {α : Type}

/-- Reads the generic value of the body. -/
def readBody (r : Response) (shape : String) (read : Json.Reader α) : Except DecodingError α :=
  (read r.body.canonical.toDraft).mapError (.malformedResponse shape)

def decodeItem (m : AttributeMap) : Except DecodingError Item := m.toItem.mapError .invalidNumber

def decodeItems : List AttributeMap → Except DecodingError (List Item)
  | [] => .ok []
  | m :: rest => do
    let item ← decodeItem m
    let items ← decodeItems rest
    return item :: items

/-- An empty map counts as no item. -/
def decodePresent : Option AttributeMap → Except DecodingError (Option Item)
  | none => .ok none
  | some m => if m.isEmpty then .ok none else (decodeItem m).map some

def singleItem (r : Response) : Except DecodingError SingleItem := do
  let body ← r.readBody "single item" (Wire.ItemBody.read .value)
  let item ← decodePresent body.item
  let attributes ← decodePresent body.attributes
  let metadata : Metadata :=
    { status := r.status, consumedCapacity := body.consumedCapacity.toList }
  return ⟨item, attributes, metadata⟩

def page (r : Response) : Except DecodingError Page := do
  let body ← r.readBody "multiple items" (Wire.ItemsBody.read .value)
  let items ← decodeItems body.items
  let metadata : Metadata :=
    { status := r.status
      count := body.count
      scannedCount := body.scannedCount
      lastEvaluatedKey := body.lastEvaluatedKey.filter fun key => !key.isEmpty
      consumedCapacity := body.consumedCapacity.toList }
  return ⟨items, metadata⟩

def batchItems (r : Response) : Except DecodingError BatchItems := do
  let body ← r.readBody "batch get" (Wire.BatchGetBody.read .value)
  let responses ← body.responses.traverse decodeItems
  let metadata : Metadata :=
    { status := r.status
      consumedCapacity := body.consumedCapacity
      unprocessedKeys := body.unprocessedKeys }
  return ⟨responses, metadata⟩

def batchRemainder (r : Response) : Except DecodingError BatchRemainder := do
  let body ← r.readBody "batch write" (Wire.BatchWriteBody.read .value)
  let metadata : Metadata := { status := r.status, consumedCapacity := body.consumedCapacity }
  return ⟨body.unprocessedItems, metadata⟩

end Response

end TableQuery
