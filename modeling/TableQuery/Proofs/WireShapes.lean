import TableQuery.Proofs.BatchEntries
import TableQuery.Wire.Body

/-!
# Records, written and read again

The entries of batches and the bodies of responses are read from what they are written as, although
what has nothing to tell is left out. A generic value gives them back with the entries of every map,
at any depth, in the order of the bytes of their names (`sorted`). Consumed capacity is set aside,
as its figures are floating point numbers.

* **`ItemBody.describes`** to **`BatchWriteBody.describes`** — the parts of each body.
* **`ItemBody.returns`** to **`BatchWriteBody.returns`** — each body comes back.
* **`shapes_come_back`** — entries and bodies, from documents, generic values and texts.
* **`deep_not_read`** — a text is not read if its containers are nested too deep.
-/

namespace TableQuery

open Json (Form Reader readInt32 readList readMap)

namespace Wire

/-! ## Response bodies -/

namespace ItemBody

/-- No name is repeated in either map. -/
structure Distinct (o : ItemBody) : Prop where
  item : ∀ m, o.item = some m → m.Distinct
  attributes : ∀ m, o.attributes = some m → m.Distinct

/-- The body with its attributes sorted. -/
def sorted (o : ItemBody) : ItemBody :=
  { o with
    item := o.item.map AttributeMap.sorted
    attributes := o.attributes.map AttributeMap.sorted }

def parts : List (Part ItemBody) := [
  .ifSome "Item" (·.item) AttributeMap.toJson fun _ => AttributeMap.read,
  .ifSome "Attributes" (·.attributes) AttributeMap.toJson fun _ => AttributeMap.read,
  .ifSome "ConsumedCapacity" (·.consumedCapacity) ConsumedCapacity.toJson ConsumedCapacity.read]

/-- The body about one item is written and read in its three parts, each of which may be left out.
-/
theorem describes : Describes parts fields toJson where
  different := by decide
  names _ := rfl
  shows _ := by
    simp only [parts, List.forall_mem_cons]
    refine ⟨?_, ?_, ?_, List.forall_mem_nil _⟩
    -- each reader fills its own field, and none of the others touches it
    all_goals constructor <;> simp [fields, Part.ifSome]
  writes _ := rfl
  required _ := by simp [fields]
  ext a a' h := by
    obtain ⟨_, _, _⟩ := a
    obtain ⟨_, _, _⟩ := a'
    simpa [parts, Part.ifSome] using h

/-- Such a body comes back, with the attributes of its maps sorted. -/
theorem returns {o : ItemBody} (h : o.Distinct) (capacity : o.consumedCapacity = none) :
    Returns toJson read o o.sorted := by
  refine describes.returns "ItemOutput" ?_
  simp only [parts, List.forall_mem_cons]
  refine ⟨?_, ?_, ?_, List.forall_mem_nil _⟩
  · exact Part.returns_ifSome rfl nofun rfl fun m hm => AttributeMap.returns (h.item m hm)
  · exact Part.returns_ifSome rfl nofun rfl fun m hm => AttributeMap.returns (h.attributes m hm)
  · -- the figures of the capacity are set aside
    exact .of_none (congrArg (Option.map _) capacity) capacity capacity

end ItemBody

namespace ItemsBody

/-- No name is repeated in an item or in the cursor. -/
structure Distinct (o : ItemsBody) : Prop where
  items : ∀ m ∈ o.items, m.Distinct
  lastEvaluatedKey : ∀ m, o.lastEvaluatedKey = some m → m.Distinct

/-- The body with its attributes sorted. -/
def sorted (o : ItemsBody) : ItemsBody :=
  { o with
    items := o.items.map AttributeMap.sorted
    lastEvaluatedKey := o.lastEvaluatedKey.map AttributeMap.sorted }

def parts : List (Part ItemsBody) := [
  .always "Items" (·.items) (listJson AttributeMap.toJson) fun _ => readList AttributeMap.read,
  .ifSome "Count" (·.count) int32Json fun _ => readInt32,
  .ifSome "ScannedCount" (·.scannedCount) int32Json fun _ => readInt32,
  .ifSome "LastEvaluatedKey" (·.lastEvaluatedKey) AttributeMap.toJson fun _ => AttributeMap.read,
  .ifSome "ConsumedCapacity" (·.consumedCapacity) ConsumedCapacity.toJson ConsumedCapacity.read]

/-- The body of a page is written and read in its five parts, of which the items are always there.
-/
theorem describes : Describes parts fields toJson where
  different := by decide
  names _ := rfl
  shows _ := by
    simp only [parts, List.forall_mem_cons]
    refine ⟨?_, ?_, ?_, ?_, ?_, List.forall_mem_nil _⟩
    all_goals constructor <;> simp [fields, Part.always, Part.ifSome]
  writes _ := rfl
  required _ := by simp [fields]
  ext a a' h := by
    obtain ⟨_, _, _, _, _⟩ := a
    obtain ⟨_, _, _, _, _⟩ := a'
    simpa [parts, Part.always, Part.ifSome] using h

/-- Such a body comes back, with its items in their order and the attributes of each of them sorted.
-/
theorem returns {o : ItemsBody} (h : o.Distinct) (capacity : o.consumedCapacity = none) :
    Returns toJson read o o.sorted := by
  refine describes.returns "ItemsOutput" ?_
  simp only [parts, List.forall_mem_cons]
  refine ⟨?_, ?_, ?_, ?_, ?_, List.forall_mem_nil _⟩
  · exact Part.returns_always (.list fun m hm => AttributeMap.returns (h.items m hm))
  · exact Part.returns_ifSome (f := id) rfl nofun (by simp [sorted]) fun n _ => returns_int32 n
  · exact Part.returns_ifSome (f := id) rfl nofun (by simp [sorted]) fun n _ => returns_int32 n
  · exact Part.returns_ifSome rfl nofun rfl
      fun m hm => AttributeMap.returns (h.lastEvaluatedKey m hm)
  · exact .of_none (congrArg (Option.map _) capacity) capacity capacity

end ItemsBody

namespace BatchGetBody

/-- No table is named twice, and no name is repeated in an item or a key. -/
structure Distinct (o : BatchGetBody) : Prop where
  tables : o.responses.Distinct
  items : ∀ e ∈ o.responses.entries, ∀ m ∈ e.2, m.Distinct
  unprocessedTables : o.unprocessedKeys.Distinct
  unprocessedKeys : ∀ e ∈ o.unprocessedKeys.entries, e.2.Distinct

/-- The body with its tables, the attributes of its items, and its entries sorted. -/
def sorted (o : BatchGetBody) : BatchGetBody :=
  { o with
    responses := (o.responses.mapValues (List.map AttributeMap.sorted)).byBytes
    unprocessedKeys := (o.unprocessedKeys.mapValues KeysAndAttributes.sorted).byBytes }

def parts : List (Part BatchGetBody) := [
  .always "Responses" (·.responses) (mapJson (listJson AttributeMap.toJson))
    fun _ => readMap (readList AttributeMap.read),
  .ifEntries "UnprocessedKeys" (·.unprocessedKeys) (mapJson KeysAndAttributes.toJson)
    fun form => readMap (KeysAndAttributes.read form),
  .ifElements "ConsumedCapacity" (·.consumedCapacity) (listJson ConsumedCapacity.toJson)
    fun form => readList (ConsumedCapacity.read form)]

/-- The body of a batch of reads is written and read in its three parts. -/
theorem describes : Describes parts fields toJson where
  different := by decide
  names _ := rfl
  shows _ := by
    simp only [parts, List.forall_mem_cons]
    refine ⟨?_, ?_, ?_, List.forall_mem_nil _⟩
    all_goals constructor <;> simp [fields, Part.always, Part.ifEntries, Part.ifElements]
  writes _ := rfl
  required _ := by simp [fields]
  ext a a' h := by
    obtain ⟨_, _, _⟩ := a
    obtain ⟨_, _, _⟩ := a'
    simpa [parts, Part.always, Part.ifEntries, Part.ifElements] using h

/-- Such a body comes back, with its tables sorted; the items of a table stay in their order. -/
theorem returns {o : BatchGetBody} (h : o.Distinct) (capacity : o.consumedCapacity = []) :
    Returns toJson read o o.sorted := by
  refine describes.returns "BatchGetItemOutput" ?_
  simp only [parts, List.forall_mem_cons]
  refine ⟨?_, ?_, ?_, List.forall_mem_nil _⟩
  · exact Part.returns_always
      (.map h.tables fun e he => .list fun m hm => AttributeMap.returns (h.items e he m hm))
  · exact Part.returns_ifEntries rfl (OrderedMap.byBytes_mapValues_of_isEmpty _)
      (.map h.unprocessedTables fun e he => KeysAndAttributes.returns (h.unprocessedKeys e he))
  · exact .of_none (if_pos (List.isEmpty_iff.2 capacity)) capacity capacity

end BatchGetBody

namespace BatchWriteBody

/-- No table is named twice, and no name is repeated in a write. -/
structure Distinct (o : BatchWriteBody) : Prop where
  tables : o.unprocessedItems.Distinct
  writes : ∀ e ∈ o.unprocessedItems.entries, ∀ w ∈ e.2, w.Distinct

/-- The body with its tables, and the attributes of its writes, sorted. -/
def sorted (o : BatchWriteBody) : BatchWriteBody :=
  { o with
    unprocessedItems := (o.unprocessedItems.mapValues (List.map WriteRequest.sorted)).byBytes }

def parts : List (Part BatchWriteBody) := [
  .ifEntries "UnprocessedItems" (·.unprocessedItems) (mapJson (listJson WriteRequest.toJson))
    fun form => readMap (readList (WriteRequest.read form)),
  .ifElements "ConsumedCapacity" (·.consumedCapacity) (listJson ConsumedCapacity.toJson)
    fun form => readList (ConsumedCapacity.read form)]

/-- The body of a batch of writes is written and read in its two parts. -/
theorem describes : Describes parts fields toJson where
  different := by decide
  names _ := rfl
  shows _ := by
    simp only [parts, List.forall_mem_cons]
    refine ⟨?_, ?_, List.forall_mem_nil _⟩
    all_goals constructor <;> simp [fields, Part.ifEntries, Part.ifElements]
  writes _ := rfl
  required _ := by simp [fields]
  ext a a' h := by
    obtain ⟨_, _⟩ := a
    obtain ⟨_, _⟩ := a'
    simpa [parts, Part.ifEntries, Part.ifElements] using h

/-- Such a body comes back, with its tables sorted; the writes to a table stay in their order. -/
theorem returns {o : BatchWriteBody} (h : o.Distinct) (capacity : o.consumedCapacity = []) :
    Returns toJson read o o.sorted := by
  refine describes.returns "BatchWriteItemOutput" ?_
  simp only [parts, List.forall_mem_cons]
  refine ⟨?_, ?_, List.forall_mem_nil _⟩
  · exact Part.returns_ifEntries rfl (OrderedMap.byBytes_mapValues_of_isEmpty _)
      (.map h.tables fun e he => .list fun w hw => WriteRequest.returns (h.writes e he w hw))
  · exact .of_none (if_pos (List.isEmpty_iff.2 capacity)) capacity capacity

end BatchWriteBody

/-! ## All of them -/

/-- What is written is read as it was, from the document and from its text, and as `sorted` where it
was a generic value in between. The text is read if and only if it does not lie too deep. -/
structure ComesBack {α : Type} (write : α → Json) (read : Form → Reader α) (a sorted : α) :
    Prop where
  document : read .text (write a).toDraft = .ok a
  value : read .value (write a).canonical.toDraft = .ok sorted
  text : ∀ b, Json.readText (read .text) (write a).print = .ok b
    ↔ (write a).depth ≤ Json.nestingLimit ∧ b = a
  genericText : ∀ b, Json.readGeneric (read .value) (write a).print = .ok b
    ↔ (write a).depth ≤ Json.nestingLimit ∧ b = sorted

/-- What comes back as a part of a record comes back by itself. -/
theorem Returns.comesBack {α : Type} {write : α → Json} {read : Form → Reader α} {a sorted : α}
    (h : Returns write read a sorted) : ComesBack write read a sorted where
  document := h.document .text
  value := h.generic .value
  text := h.text .text
  genericText := h.genericText .value

/-- Both are absent or neither is, and both are empty or neither is. -/
structure AlikeInSize (m m' : Option AttributeMap) : Prop where
  absent : m = none ↔ m' = none
  empty : m = some ∅ ↔ m' = some ∅

/-- Sorting adds no map and empties none. -/
theorem alikeInSize_sorted (m : Option AttributeMap) :
    AlikeInSize (m.map AttributeMap.sorted) m where
  absent := Option.map_eq_none_iff
  empty := by
    cases m with
    | none => exact ⟨nofun, nofun⟩
    | some m =>
      -- a map is empty if and only if it is after sorting
      rw [Option.map_some, Option.some_inj, Option.some_inj]
      constructor
      · intro h
        exact OrderedMap.eq_empty_of_isEmpty (AttributeMap.isEmpty_sorted m ▸ h ▸ rfl)
      · rintro rfl
        rfl

/-- **Every shape is read as it was written.** What is absent, empty or an empty text in a record
is so again. -/
theorem shapes_come_back :
    (∀ k : KeysAndAttributes, k.Distinct →
      ComesBack KeysAndAttributes.toJson KeysAndAttributes.read k k.sorted
        ∧ k.sorted.projectionExpression = k.projectionExpression) ∧
    (∀ w : WriteRequest, w.Distinct →
      ComesBack WriteRequest.toJson WriteRequest.read w w.sorted
        ∧ AlikeInSize (w.sorted.putRequest.map (·.item)) (w.putRequest.map (·.item))
        ∧ AlikeInSize (w.sorted.deleteRequest.map (·.key)) (w.deleteRequest.map (·.key))) ∧
    (∀ o : ItemBody, o.Distinct → o.consumedCapacity = none →
      ComesBack ItemBody.toJson ItemBody.read o o.sorted
        ∧ AlikeInSize o.sorted.item o.item ∧ AlikeInSize o.sorted.attributes o.attributes) ∧
    (∀ o : ItemsBody, o.Distinct → o.consumedCapacity = none →
      ComesBack ItemsBody.toJson ItemsBody.read o o.sorted
        ∧ AlikeInSize o.sorted.lastEvaluatedKey o.lastEvaluatedKey) ∧
    (∀ o : BatchGetBody, o.Distinct → o.consumedCapacity = [] →
      ComesBack BatchGetBody.toJson BatchGetBody.read o o.sorted) ∧
    (∀ o : BatchWriteBody, o.Distinct → o.consumedCapacity = [] →
      ComesBack BatchWriteBody.toJson BatchWriteBody.read o o.sorted) := by
  refine ⟨fun k h => ⟨(KeysAndAttributes.returns h).comesBack, rfl⟩, fun w h => ?_,
    fun o h capacity => ?_, fun o h capacity => ?_,
    fun o h capacity => (BatchGetBody.returns h capacity).comesBack,
    fun o h capacity => (BatchWriteBody.returns h capacity).comesBack⟩
  · have hput : w.sorted.putRequest.map (·.item)
        = (w.putRequest.map (·.item)).map AttributeMap.sorted := by
      simp [WriteRequest.sorted, Function.comp_def]
    have hdelete : w.sorted.deleteRequest.map (·.key)
        = (w.deleteRequest.map (·.key)).map AttributeMap.sorted := by
      simp [WriteRequest.sorted, Function.comp_def]
    exact ⟨(WriteRequest.returns h).comesBack, hput ▸ alikeInSize_sorted _,
      hdelete ▸ alikeInSize_sorted _⟩
  · exact ⟨(ItemBody.returns h capacity).comesBack, alikeInSize_sorted _, alikeInSize_sorted _⟩
  · exact ⟨(ItemsBody.returns h capacity).comesBack, alikeInSize_sorted _⟩

/-- A thread with an empty title and no tags. -/
def thread : AttributeMap := ⟨[("Title", .s ""), ("Tags", .m ∅), ("Replies", .n "0")]⟩

def sortedThread : AttributeMap := ⟨[("Replies", .n "0"), ("Tags", .m ∅), ("Title", .s "")]⟩

theorem distinct_thread : thread.Distinct :=
  ⟨by decide, trivial, ⟨List.nodup_nil, trivial⟩, trivial, trivial⟩

/-- The thread in each of the records, beside empty maps and texts, which are kept apart from absent
ones. -/
theorem shapes_come_back_thread :
    ComesBack KeysAndAttributes.toJson KeysAndAttributes.read
        { keys := [thread], projectionExpression := some "" }
        { keys := [sortedThread], projectionExpression := some "" } ∧
    ComesBack WriteRequest.toJson WriteRequest.read (.put thread) (.put sortedThread) ∧
    ComesBack ItemBody.toJson ItemBody.read
        { item := some thread, attributes := some ∅ }
        { item := some sortedThread, attributes := some ∅ } ∧
    ComesBack ItemsBody.toJson ItemsBody.read
        { items := [thread, ∅], count := some 2 } { items := [sortedThread, ∅], count := some 2 } ∧
    ComesBack BatchGetBody.toJson BatchGetBody.read
        { responses := ⟨[("Threads", [thread]), ("Forums", [])]⟩ }
        { responses := ⟨[("Forums", []), ("Threads", [sortedThread])]⟩ } ∧
    ComesBack BatchWriteBody.toJson BatchWriteBody.read
        { unprocessedItems := ⟨[("Threads", [.put thread])]⟩ }
        { unprocessedItems := ⟨[("Threads", [.put sortedThread])]⟩ } := by
  obtain ⟨keys, write, item, items, batchGet, batchWrite⟩ := shapes_come_back
  have hthread := distinct_thread
  have hempty : AttributeMap.Distinct ∅ := ⟨List.nodup_nil, trivial⟩
  have hkeys : KeysAndAttributes.Distinct { keys := [thread], projectionExpression := some "" } :=
    ⟨by simpa using hthread, List.nodup_nil⟩
  have hwrite : (WriteRequest.put thread).Distinct :=
    ⟨by simpa [WriteRequest.put] using hthread, nofun⟩
  have hitem : ItemBody.Distinct { item := some thread, attributes := some ∅ } :=
    ⟨by simpa using hthread, by simpa using hempty⟩
  have hitems : ItemsBody.Distinct { items := [thread, ∅], count := some 2 } :=
    ⟨by simpa using ⟨hthread, hempty⟩, nofun⟩
  have htables : BatchGetBody.Distinct
      { responses := ⟨[("Threads", [thread]), ("Forums", [])]⟩ } :=
    ⟨by simp [OrderedMap.Distinct, OrderedMap.keys], by simpa using hthread, List.nodup_nil, nofun⟩
  have hwrites : BatchWriteBody.Distinct
      { unprocessedItems := ⟨[("Threads", [.put thread])]⟩ } :=
    ⟨List.nodup_singleton _, by simpa using hwrite⟩
  exact ⟨(keys _ hkeys).1, (write _ hwrite).1, (item _ hitem rfl).1, (items _ hitems rfl).1,
    batchGet _ htables rfl, batchWrite _ hwrites rfl⟩

/-! ## Texts that lie too deep -/

/-- So many lists around a value. -/
def wrapped : Nat → AttributeValue
  | 0 => .null true
  | n + 1 => .l [wrapped n]

theorem distinct_wrapped : ∀ n, (wrapped n).Distinct
  | 0 => trivial
  | n + 1 => ⟨distinct_wrapped n, trivial⟩

/-- Each list is two containers: the object of its tag, and the array. -/
theorem depth_wrapped (n : Nat) : (wrapped n).toJson.depth = 2 * n + 1 := by
  induction n with
  | zero => rfl
  | succ n ih =>
    -- the value of one member, in a list of one element
    simp only [wrapped, AttributeValue.toJson, AttributeValue.listJson, Json.depth,
      Json.depthMembers, Json.depthElements, ih]
    omega

/-- An item is two containers more than the value of its attribute. -/
theorem depth_item (name : String) (w : AttributeValue) :
    (ItemBody.toJson { item := some ⟨[(name, w)]⟩ }).depth = w.toJson.depth + 2 := by
  simp [ItemBody.toJson, recordJson, ifSome, AttributeMap.toJson, AttributeValue.entriesJson,
    Json.depth, Json.depthMembers]

/-- **A text that lies too deep** is not read, although it was written. -/
theorem deep_not_read :
    ItemBody.Distinct { item := some ⟨[("a", wrapped 63)]⟩ } ∧
    ∀ o, Json.readText (ItemBody.read .text)
      (ItemBody.toJson { item := some ⟨[("a", wrapped 63)]⟩ }).print ≠ .ok o := by
  have hattributes : AttributeMap.Distinct ⟨[("a", wrapped 63)]⟩ :=
    ⟨List.nodup_singleton _, distinct_wrapped 63, trivial⟩
  have hdistinct : ItemBody.Distinct { item := some ⟨[("a", wrapped 63)]⟩ } :=
    ⟨by simpa using hattributes, nofun⟩
  refine ⟨hdistinct, fun o ho => ?_⟩
  have hlimit := (((ItemBody.returns hdistinct rfl).text .text o).1 ho).1
  rw [depth_item, depth_wrapped, Json.nestingLimit] at hlimit
  omega

end Wire

end TableQuery
