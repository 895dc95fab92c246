import TableQuery.Request.Parameters

/-!
# Commands

What a request is made for. A command becomes an operation with its parameters, once it is certain
that the items it is about can be addressed: every key has to be there and, where the key columns
are declared, to be complete.
-/

namespace TableQuery

inductive Command where
  /-- The key may have been set as an option. -/
  | getItem (key : Option Item)
  | putItem (item : Item)
  | deleteItem (key : Item)
  /-- Null attributes are removed, others are set. -/
  | updateItem (item : Item)
  | increment (column : String) (amount : Value) (extra : Item)
  | decrement (column : String) (amount : Value) (extra : Item)
  | query
  | scan
  /-- Looks the items up by their key if the conditions allow it, and scans the table otherwise. -/
  | get
  | batchGetItem (keys : List Item)
  | batchWriteItem (requests : List BatchWrite)

namespace Command

def batchPut (items : List Item) : Command := .batchWriteItem (items.map .put)

def batchDelete (keys : List Item) : Command := .batchWriteItem (keys.map .delete)

end Command

/-- An operation with its parameters, ready to be sent. -/
structure Prepared where
  operation : Operation
  parameters : Wire.Parameters

def Prepared.responseKind? (p : Prepared) : Option ResponseKind := p.operation.responseKind?

namespace Request

/-! ## Checks -/

/-- An item has to have the declared key columns. -/
def ensureItem (r : Request) (item : Item) : Except RequestError Unit :=
  match r.options.keySchema with
  | some schema => schema.ensureKey item
  | none => .ok ()

def ensureKey (r : Request) (operation : Operation) (key : Item) : Except RequestError Unit :=
  if key.isEmpty then .error (.missingKey (.key operation r.table)) else r.ensureItem key

def ensureKeys (r : Request) (operation : Operation) : List Item → Except RequestError Unit
  | [] => .ok ()
  | key :: rest => do
    r.ensureKey operation key
    r.ensureKeys operation rest

def ensureWrite (r : Request) : BatchWrite → Except RequestError Unit
  | .put item => r.ensureItem item
  | .delete key => r.ensureKey .batchWriteItem key

def ensureWrites (r : Request) : List BatchWrite → Except RequestError Unit
  | [] => .ok ()
  | request :: rest => do
    r.ensureWrite request
    r.ensureWrites rest

/-- Batches have no conditions. -/
def ensureNoClauses (r : Request) (operation : Operation) : Except RequestError Unit :=
  match r.conditions.occupied? with
  | some slot => .error (.unsupportedPredicate slot.expressionName (.batchExpression operation))
  | none => .ok ()

/-! ## Preparing a command -/

def prepareOperation (r : Request) (operation : Operation) (item : Item)
    (changes : List KeyedChange) : Except RequestError Prepared :=
  (r.parameters operation item changes).map (Prepared.mk operation)

/-- A lookup by key, or a scan. -/
def retrieval (r : Request) : Operation := if r.constrainsKey then .query else .scan

/-- An update whose first changes have been recorded. -/
def prepareUpdate (r : Request) (changes : List KeyedChange) (item : Item) :
    Except RequestError Prepared := do
  r.ensureKey .updateItem r.options.key
  let (assignments, placeholders) := Update.assign r.conditions.placeholders item
  let r := { r with conditions := { r.conditions with placeholders } }
  r.prepareOperation .updateItem ∅ (changes ++ assignments)

/-- An update that counts a column up or down. -/
def prepareCounter (r : Request)
    (count : Placeholders → String → Value → KeyedChange × Placeholders) (column : String)
    (amount : Value) (extra : Item) : Except RequestError Prepared :=
  -- The counted column is declared before the attributes that are set beside it.
  let (change, placeholders) := count r.conditions.placeholders column amount
  { r with conditions := { r.conditions with placeholders } }.prepareUpdate [change] extra

/-- The request about the item with a key, or, if none is given, about the one it is about. -/
def atKey (r : Request) (key : Option Item) : Request :=
  match key with
  | some key => r.set (.key key)
  | none => r

def prepare (r : Request) : Command → Except RequestError Prepared
  | .getItem key => do
    let r := r.atKey key
    r.ensureKey .getItem r.options.key
    r.prepareOperation .getItem ∅ []
  | .putItem item => do
    r.ensureItem item
    r.prepareOperation .putItem item []
  | .deleteItem key => do
    let r := r.atKey (some key)
    r.ensureKey .deleteItem key
    r.prepareOperation .deleteItem ∅ []
  | .updateItem item => r.prepareUpdate [] item
  | .increment column amount extra => r.prepareCounter Update.increment column amount extra
  | .decrement column amount extra => r.prepareCounter Update.decrement column amount extra
  | .query => r.prepareOperation .query ∅ []
  | .scan => r.prepareOperation .scan ∅ []
  | .get => r.prepareOperation r.retrieval ∅ []
  | .batchGetItem keys => do
    r.ensureNoClauses .batchGetItem
    if keys.isEmpty then .error (.missingKey (.batchKeys .batchGetItem r.table))
    r.ensureKeys .batchGetItem keys
    return ⟨.batchGetItem, r.batchGetParameters keys⟩
  | .batchWriteItem requests => do
    r.ensureNoClauses .batchWriteItem
    if requests.isEmpty then .error (.missingKey (.batchRequests .batchWriteItem r.table))
    r.ensureWrites requests
    return ⟨.batchWriteItem, r.batchWriteParameters requests⟩

end Request

end TableQuery
