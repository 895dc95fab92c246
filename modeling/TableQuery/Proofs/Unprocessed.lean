import TableQuery.Connection
import TableQuery.Proofs.BatchEntries
import TableQuery.Proofs.Closed

/-!
# What is left of a batch

The store may leave some entries of a batch undone and return them as they were sent. They are read
as the entries that they were, with the attributes of every map in the order of their names
(`sorted`), so sending them again does what was left to do.

* **`read_document`** — a write that comes back is the same write, and a put does not become a
  delete.
* **`batchRemainder_left`** — the writes that come back, in their order.
* **`read_withKeys`** — the entry of a batch of reads that comes back with some of its keys.
* **`unprocessed_returned`** — what is sent for a batch, and what is read where a part of it comes
  back.
-/

namespace TableQuery

open Json (readList)

/-! ## Writes -/

/-- What is sent for an item or a key. -/
def Item.document (item : Item) : Json := item.toAttributes.sorted.toJson

theorem Item.canonical_toAttributes (item : Item) :
    item.toAttributes.toJson.canonical = item.document :=
  AttributeMap.canonical_toJson item.distinct_toAttributes

namespace BatchWrite

/-- What is sent for a write. -/
def document : BatchWrite → Json
  | .put item => .object [("PutRequest", .object [("Item", item.document)])]
  | .delete key => .object [("DeleteRequest", .object [("Key", key.document)])]

theorem canonical_write (b : BatchWrite) : b.write.toJson.canonical = b.document := by
  cases b with
  | put item =>
    show (Json.object [("PutRequest", .object [("Item", item.toAttributes.toJson)])]).canonical = _
    rw [Json.canonical_member, Json.canonical_member, item.canonical_toAttributes, document]
  | delete key =>
    show (Json.object [("DeleteRequest", .object [("Key", key.toAttributes.toJson)])]).canonical = _
    rw [Json.canonical_member, Json.canonical_member, key.canonical_toAttributes, document]

theorem sorted_document (b : BatchWrite) : b.document.Sorted := by
  rw [← canonical_write]
  exact Json.sorted_canonical _

theorem distinct_write (b : BatchWrite) : b.write.Distinct := by
  cases b with
  | put item => exact ⟨fun _ h => by cases h; exact item.distinct_toAttributes, nofun⟩
  | delete key => exact ⟨nofun, fun _ h => by cases h; exact key.distinct_toAttributes⟩

/-- **A write that comes back** is the same write. -/
theorem read_document (b : BatchWrite) :
    Wire.WriteRequest.read .value b.document.toDraft = .ok b.write.sorted := by
  rw [← b.canonical_write]
  exact (Wire.WriteRequest.returns b.distinct_write).generic .value

end BatchWrite

/-- A batch of writes sends them in their order, under the name of the table, and nothing else. -/
theorem Request.body_batchWrite {r : Request} {requests : List BatchWrite} {p : Prepared}
    (h : r.prepare (.batchWriteItem requests) = .ok p) :
    p.parameters.body = .object [("RequestItems",
      .object [(r.tableName, .array (requests.map BatchWrite.document))])] := by
  rw [Request.prepare_checked] at h
  obtain ⟨-, -, h⟩ := bind_eq_ok.1 h
  cases h
  show (Json.object [("RequestItems", .object [(r.tableName,
    .array ((requests.map BatchWrite.write).map Wire.WriteRequest.toJson))])]).canonical = _
  rw [Json.canonical_member, Json.canonical_member, Json.canonical, Json.canonicalElements_eq,
    List.map_map, List.map_map]
  simp only [Function.comp_def, BatchWrite.canonical_write]

/-- **The writes that come back**, in their order. -/
theorem Response.batchRemainder_left (status : Nat) (table : String) (left : List BatchWrite) :
    batchRemainder { status, body := .object [("UnprocessedItems",
        .object [(table, .array (left.map BatchWrite.document))])] }
      = .ok { unprocessed := ⟨[(table, left.map fun b => b.write.sorted)]⟩,
              metadata := { status } } := by
  have hsorted : (Json.array (left.map BatchWrite.document)).Sorted :=
    Json.sortedElements_iff.2 fun j hj => by
      obtain ⟨b, -, rfl⟩ := List.mem_map.1 hj
      exact b.sorted_document
  have hlist : readList (Wire.WriteRequest.read .value)
      (Json.array (left.map BatchWrite.document)).toDraft
      = .ok (left.map fun b => b.write.sorted) := Json.readList_map fun b _ => b.read_document
  have hbody : Wire.BatchWriteBody.read .value (Json.object [("UnprocessedItems",
      .object [(table, .array (left.map BatchWrite.document))])]).toDraft
        = .ok { unprocessedItems := ⟨[(table, left.map fun b => b.write.sorted)]⟩ } := by
    refine Json.readRecord_member rfl ?_ ?_ .value "BatchWriteItemOutput"
    · simp [Wire.BatchWriteBody.fields]
    · exact Json.RecordField.fill_of (Json.readMap_member hlist table)
  rw [batchRemainder, readBody, Json.canonical_member, Json.canonical_member,
    Json.canonical_of_sorted _ hsorted, hbody]
  rfl

/-! ## Reads -/

namespace Json

/-- The document with the member of some name replaced, if it is an object. -/
def withMember (j : Json) (name : String) (value : Json) : Json :=
  match j with
  | .object ms => .object (insertMember name value ms)
  | j => j

variable {j value : Json} {name : String}

theorem Sorted.withMember (h : j.Sorted) (hvalue : value.Sorted) :
    (j.withMember name value).Sorted := by
  cases j with
  | object ms =>
    refine ⟨h.1.insertMember name value, sortedMembers_iff.2 fun m hm => ?_⟩
    rcases mem_insertMember hm with rfl | hold
    · exact hvalue
    · exact sortedMembers_iff.1 h.2 m hold
  | _ => exact h

/-- Replacing a member before the document is sorted is the same. -/
theorem withMember_cons {ms : List (String × Json)} {i : Json}
    (names : (((name, i) :: ms).map (·.1)).Nodup) (j : Json) :
    (object ((name, i) :: ms)).canonical.withMember name j.canonical
      = (object ((name, j) :: ms)).canonical := by
  have names' : (((name, j) :: ms).map (·.1)).Nodup := names
  refine congrArg object (((sortMembers_inOrder _).insertMember _ _).ext (sortMembers_inOrder _)
    fun other => ?_)
  by_cases hother : other = name
  · rw [hother, lookup?_insertMember_self, lookup?_sortMembers names', lookup?, if_pos rfl]
    rfl
  · have hne : name ≠ other := fun heq => hother heq.symm
    rw [lookup?_insertMember_of_ne hother, lookup?_sortMembers names, lookup?_sortMembers names',
      lookup?, lookup?, if_neg hne, if_neg hne]

/-- Replacing a member by itself changes nothing. -/
theorem withMember_of_get? (h : j.Sorted) (hget : j.get? name = some value) :
    j.withMember name value = j := by
  cases j with
  | object ms => exact congrArg object (insertMember_of_lookup? h.1 hget)
  | _ => cases hget

end Json

namespace Wire.KeysAndAttributes

/-- The entry with other keys. -/
def withKeys (k : KeysAndAttributes) (keys : List AttributeMap) : KeysAndAttributes :=
  { k with keys }

section

variable (k : KeysAndAttributes)

theorem get?_keys : k.toJson.canonical.get? "Keys"
    = some (.array (k.keys.map fun m => m.toJson.canonical)) := by
  have hlookup := Json.lookup?_sortMembers (nodup_membersOf (a := k) describes.different) "Keys"
  rw [← canonical_listJson]
  exact hlookup

/-- The entry with other keys is sent with other keys, and else as before. -/
theorem withMember_toJson (maps : List AttributeMap) :
    k.toJson.canonical.withMember "Keys" (.array (maps.map fun m => m.toJson.canonical))
      = (k.withKeys maps).toJson.canonical := by
  have names := nodup_membersOf (a := k) describes.different
  rw [← canonical_listJson]
  exact Json.withMember_cons names _

/-- **An entry that comes back with some of its keys** is the entry with these keys. -/
theorem read_withKeys (names : k.expressionAttributeNames.Distinct) {maps : List AttributeMap}
    (distinct : ∀ m ∈ maps, m.Distinct) (form : Json.Form) :
    KeysAndAttributes.read form (k.toJson.canonical.withMember "Keys"
        (.array (maps.map fun m => m.toJson.canonical))).toDraft
      = .ok (k.withKeys maps).sorted := by
  have hdistinct : (k.withKeys maps).Distinct := ⟨distinct, names⟩
  rw [k.withMember_toJson]
  exact (returns hdistinct).generic form

end

end Wire.KeysAndAttributes

/-- A batch of reads sends the entry of the table, and nothing else. -/
theorem Request.body_batchGet {r : Request} {keys : List Item} {p : Prepared}
    (h : r.prepare (.batchGetItem keys) = .ok p) :
    p.parameters.body = .object [("RequestItems",
      .object [(r.tableName, (r.batchEntry keys).toJson.canonical)])] := by
  rw [prepare_batchGet h]
  rfl

/-- **The entry that comes back**, with some of its keys. -/
theorem Response.batchItems_left (status : Nat) (table : String) {k : Wire.KeysAndAttributes}
    (names : k.expressionAttributeNames.Distinct) (left : List Item) :
    batchItems { status, body := .object [("UnprocessedKeys", .object [(table,
        k.toJson.canonical.withMember "Keys" (.array (left.map Item.document)))])] }
      = .ok { responses := ∅, metadata := { status, unprocessedKeys :=
          ⟨[(table, (k.withKeys (left.map Item.toAttributes)).sorted)]⟩ } } := by
  -- the documents of the keys are those of their typed forms, which is how the entry is read
  have hdocuments : left.map Item.document
      = (left.map Item.toAttributes).map fun m => m.toJson.canonical := by
    rw [List.map_map]
    exact List.map_congr_left fun key _ => key.canonical_toAttributes.symm
  have hkeys : (Json.array (left.map Item.document)).Sorted := by
    rw [hdocuments]
    refine Json.sortedElements_iff.2 fun j hj => ?_
    obtain ⟨m, -, rfl⟩ := List.mem_map.1 hj
    exact Json.sorted_canonical m.toJson
  have hsorted : (k.toJson.canonical.withMember "Keys" (.array (left.map Item.document))).Sorted :=
    (Json.sorted_canonical k.toJson).withMember hkeys
  have hdistinct : ∀ m ∈ left.map Item.toAttributes, m.Distinct := fun m hm => by
    obtain ⟨key, -, rfl⟩ := List.mem_map.1 hm
    exact key.distinct_toAttributes
  have hentry := k.read_withKeys names hdistinct .value
  rw [← hdocuments] at hentry
  have hbody : Wire.BatchGetBody.read .value (Json.object [("UnprocessedKeys", .object [(table,
      k.toJson.canonical.withMember "Keys" (.array (left.map Item.document)))])]).toDraft
        = .ok { unprocessedKeys :=
            ⟨[(table, (k.withKeys (left.map Item.toAttributes)).sorted)]⟩ } := by
    refine Json.readRecord_member rfl ?_ ?_ .value "BatchGetItemOutput"
    · simp [Wire.BatchGetBody.fields]
    · exact Json.RecordField.fill_of (Json.readMap_member hentry table)
  -- the body is sorted again when it is read, which changes nothing
  rw [batchItems, readBody, Json.canonical_member, Json.canonical_member,
    Json.canonical_of_sorted _ hsorted, hbody]
  rfl

/-! ## What is left -/

namespace Request

/-- **What is left of a batch comes back as it was sent.** A batch of writes sends one document for
each of them, in their order, which tells a put from a delete. Whatever part of these documents
comes back, as many or as few, is read as these writes, in their order and with their attributes
sorted, and nothing is left if and only if none comes back. A batch of reads sends one entry for the
table, with the keys in their order. If the entry comes back with all or some of its keys, it is
read as the same entry with these keys, with its attributes and the names that it declares sorted.
-/
theorem unprocessed_returned (r : Request) (status : Nat) :
    (∀ requests p, r.prepare (.batchWriteItem requests) = .ok p →
      p.parameters.body = .object [("RequestItems",
          .object [(r.tablePrefix ++ r.table, .array (requests.map BatchWrite.document))])]
        ∧ ∀ js, js.Sublist (requests.map BatchWrite.document) →
          ∃ left : List BatchWrite, left.Sublist requests ∧ js = left.map BatchWrite.document
            ∧ ∃ result : BatchRemainder,
              Response.batchRemainder { status, body := .object [("UnprocessedItems",
                  .object [(r.tablePrefix ++ r.table, .array js)])] } = .ok result
                ∧ result.unprocessed.entries
                  = [(r.tablePrefix ++ r.table, left.map fun b => b.write.sorted)]
                ∧ (result.isEmpty = true ↔ js = []))
      ∧ ∀ keys p, r.prepare (.batchGetItem keys) = .ok p →
        ∃ (entry : Wire.KeysAndAttributes) (document : Json),
          p.parameters.requestItems = some (.get ⟨[(r.tablePrefix ++ r.table, entry)]⟩)
            ∧ p.parameters.body
              = .object [("RequestItems", .object [(r.tablePrefix ++ r.table, document)])]
            ∧ document = entry.toJson.canonical
            ∧ document.get? "Keys" = some (.array (keys.map Item.document))
            ∧ document.withMember "Keys" (.array (keys.map Item.document)) = document
            ∧ ∀ js, js.Sublist (keys.map Item.document) →
              ∃ left : List Item, left.Sublist keys ∧ js = left.map Item.document
                ∧ ∃ result : BatchItems,
                  Response.batchItems { status, body := .object [("UnprocessedKeys", .object
                      [(r.tablePrefix ++ r.table, document.withMember "Keys" (.array js))])] }
                      = .ok result
                    ∧ result.metadata.unprocessedKeys.entries = [(r.tablePrefix ++ r.table,
                      (entry.withKeys (left.map Item.toAttributes)).sorted)] := by
  refine ⟨fun requests p h => ⟨body_batchWrite h, fun js hjs => ?_⟩, fun keys p h => ?_⟩
  · -- a sublist of the documents belongs to a sublist of what was asked for
    obtain ⟨left, hleft, rfl⟩ := List.sublist_map_iff.1 hjs
    refine ⟨left, hleft, rfl, _, Response.batchRemainder_left status _ left, rfl, ?_⟩
    cases left <;> simp [BatchRemainder.isEmpty, OrderedMap.values]
  · -- the entry that was sent has the keys as one of its members, which is all that is exchanged
    have hkeys : (r.batchEntry keys).toJson.canonical.get? "Keys"
        = some (.array (keys.map Item.document)) := by
      rw [Wire.KeysAndAttributes.get?_keys]
      show some (Json.array ((keys.map Item.toAttributes).map _)) = _
      rw [List.map_map]
      simp only [Function.comp_def, Item.canonical_toAttributes]
    have hentry := congrArg Wire.Parameters.requestItems (prepare_batchGet h)
    refine ⟨_, _, hentry, body_batchGet h, rfl, hkeys,
      Json.withMember_of_get? (Json.sorted_canonical _) hkeys, fun js hjs => ?_⟩
    obtain ⟨left, hleft, rfl⟩ := List.sublist_map_iff.1 hjs
    have hnames : (r.batchEntry keys).expressionAttributeNames.Distinct :=
      OrderedMap.distinct_ofList _
    exact ⟨left, hleft, rfl, _, Response.batchItems_left status _ hnames left, rfl⟩

def threadKey (subject : String) : Item := ⟨[("Subject", .string subject), ("Forum", .string "S3")]⟩

/-- The put of a batch of two writes comes back, and the second key of a batch of two reads. -/
theorem unprocessed_returned_thread :
    ∃ p q document, (Config.table { tablePrefix := "dev_" } "Thread").prepare
          (.batchWriteItem [.delete (threadKey "a"), .put (threadKey "b")]) = .ok p
      ∧ (Config.table { tablePrefix := "dev_" } "Thread").prepare
          (.batchGetItem [threadKey "a", threadKey "b"]) = .ok q
      ∧ q.parameters.body = .object [("RequestItems", .object [("dev_" ++ "Thread", document)])]
      ∧ (∃ result, Response.batchRemainder { body := .object [("UnprocessedItems",
            .object [("dev_" ++ "Thread", .array [.object [("PutRequest", .object [("Item", .object
              [("Forum", .object [("S", .string "S3")]),
                ("Subject", .object [("S", .string "b")])])])]])])] } = .ok result
          ∧ result.isEmpty = false)
      ∧ ∃ result : BatchItems, Response.batchItems { body := .object [("UnprocessedKeys",
            .object [("dev_" ++ "Thread", document.withMember "Keys" (.array [.object
              [("Forum", .object [("S", .string "S3")]),
                ("Subject", .object [("S", .string "b")])]]))])] } = .ok result
          ∧ result.metadata.unprocessedKeys.keys = ["dev_" ++ "Thread"] := by
  obtain ⟨writes, reads⟩ :=
    unprocessed_returned (Config.table { tablePrefix := "dev_" } "Thread") 200
  obtain ⟨-, writesBack⟩ := writes [.delete (threadKey "a"), .put (threadKey "b")] _ rfl
  obtain ⟨_, document, -, hdocument, -, -, -, readsBack⟩ :=
    reads [threadKey "a", threadKey "b"] _ rfl
  obtain ⟨-, -, -, remainder, hremainder, -, hempty⟩ :=
    writesBack [_] (.cons _ (.cons_cons _ .slnil))
  obtain ⟨left, -, -, items, hitems, hkeys⟩ := readsBack [_] (.cons _ (.cons_cons _ .slnil))
  refine ⟨_, _, document, rfl, rfl, hdocument, ⟨remainder, hremainder, ?_⟩, items, hitems, ?_⟩
  · exact Bool.eq_false_iff.2 fun h => List.cons_ne_nil _ _ (hempty.1 h)
  · rw [OrderedMap.keys, hkeys]
    rfl

end Request

end TableQuery
