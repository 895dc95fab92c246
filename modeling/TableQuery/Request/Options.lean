import TableQuery.KeySchema
import TableQuery.AttributeValue

/-!
# Options of a request

Everything about a request but its conditions. Each option holds what it was set to last.
-/

namespace TableQuery

structure Options where
  index : Option String := none
  key : Item := ∅
  columns : List String := []
  limit : Option Int32 := none
  scanIndexForward : Option Bool := none
  exclusiveStartKey : AttributeMap := ∅
  consistentRead : Option Bool := none
  dryRun : Bool := false
  keySchema : Option KeySchema := none

inductive Setting where
  /-- Reads from a secondary index. -/
  | index (name : String)
  /-- The item that the request is about. -/
  | key (key : Item)
  /-- The columns to return. -/
  | select (columns : List String)
  /-- The number of items to look at, at most. -/
  | limit (count : Int32)
  | scanIndexForward (forward : Bool)
  /-- Goes on after the page that ended there. -/
  | exclusiveStartKey (key : AttributeMap)
  | consistentRead (consistent : Bool)
  /-- Shows what would be sent, and sends nothing. -/
  | dryRun (dry : Bool)
  /-- Declares the key columns of the table, which keys are then checked for. -/
  | withKeys (schema : KeySchema)

/-- Only the wish for a consistent read is sent. -/
def sentConsistency (consistent : Option Bool) : Option Bool := consistent.filter id

namespace Options

def set (o : Options) : Setting → Options
  | .index name => { o with index := some name }
  | .key key => { o with key }
  | .select columns => { o with columns }
  | .limit count => { o with limit := some count }
  | .scanIndexForward forward => { o with scanIndexForward := some forward }
  | .exclusiveStartKey key => { o with exclusiveStartKey := key }
  | .consistentRead consistent => { o with consistentRead := some consistent }
  | .dryRun dry => { o with dryRun := dry }
  | .withKeys schema => { o with keySchema := some schema }

/-- The name of the index that is sent. -/
def sentIndex (o : Options) : Option String := o.index.filter fun name => !name.isEmpty

end Options

end TableQuery
