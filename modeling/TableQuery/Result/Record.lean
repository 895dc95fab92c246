import TableQuery.Result

/-!
# Records

Decoded items can be turned into values of a type of the caller's. Each record carries a copy of the
metadata of the response that its item came with. Either all items of a response become records, or
the first one that does not is reported.
-/

namespace TableQuery

structure Record (α : Type) where
  value : α
  metadata : Metadata

abbrev Conversion (α : Type) := Item → Except DecodingError α

variable {α : Type}

def Conversion.record (convert : Conversion α) (metadata : Metadata) (item : Item) :
    Except DecodingError (Record α) :=
  (convert item).map fun value => ⟨value, metadata⟩

def Conversion.records (convert : Conversion α) (metadata : Metadata) :
    List Item → Except DecodingError (List (Record α))
  | [] => .ok []
  | item :: rest => do
    let record ← convert.record metadata item
    let records ← Conversion.records convert metadata rest
    return record :: records

/-- The record of the item; the returned attributes never become one. -/
def SingleItem.record (s : SingleItem) (convert : Conversion α) :
    Except DecodingError (Option (Record α)) :=
  match s.item with
  | none => .ok none
  | some item => (convert.record s.metadata item).map some

def Page.records (p : Page) (convert : Conversion α) : Except DecodingError (List (Record α)) :=
  convert.records p.metadata p.items

def BatchItems.records (b : BatchItems) (convert : Conversion α) :
    Except DecodingError (List (Record α)) :=
  convert.records b.metadata b.items

end TableQuery
