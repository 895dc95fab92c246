import TableQuery.Proofs.Parts

/-!
# Entries of batches

The entries of a batch are read from what they are written as, and from its generic value with the
entries of every map, at any depth, in the order of the bytes of their names (`sorted`).

* **`AttributeMap.returns`** — attributes come back.
* **`KeysAndAttributes.describes`** to **`WriteRequest.describes`** — the parts of each entry.
* **`KeysAndAttributes.returns`**, **`WriteRequest.returns`** — the entries come back.
-/

namespace TableQuery

open Json (readString readBool readList readMap)

/-! ## Attributes -/

namespace AttributeValue

/-- Texts hold no numbers, so a list of texts is whole: nothing in it can be out of range when it is
read back. -/
theorem whole_strings (texts : List String) : (Json.strings texts).Whole :=
  Wire.wholeElements_iff.2 fun j hj => by
    obtain ⟨_, -, rfl⟩ := List.mem_map.1 hj
    trivial

mutual

/-- Typed forms are written without numbers. -/
theorem whole_toJson : ∀ w : AttributeValue, w.toJson.Whole
  | .s _ => ⟨trivial, trivial⟩
  | .n _ => ⟨trivial, trivial⟩
  | .b _ => ⟨trivial, trivial⟩
  | .ss texts => ⟨whole_strings texts, trivial⟩
  | .ns literals => ⟨whole_strings literals, trivial⟩
  | .bs elements => ⟨whole_strings (elements.map Base64.encode), trivial⟩
  | .bool _ => ⟨trivial, trivial⟩
  | .null _ => ⟨trivial, trivial⟩
  | .l elements => ⟨whole_listJson elements, trivial⟩
  | .m ⟨entries⟩ => ⟨whole_entriesJson entries, trivial⟩

/-- The elements of a list are whole, one by one. Second half of the induction over a value and its
lists. -/
theorem whole_listJson : ∀ ws : List AttributeValue, Json.WholeElements (listJson ws)
  | [] => trivial
  | w :: rest => ⟨whole_toJson w, whole_listJson rest⟩

/-- The entries of a map are whole, one by one. Third part of the same induction. -/
theorem whole_entriesJson : ∀ es : List (String × AttributeValue),
    Json.WholeMembers (entriesJson es)
  | [] => trivial
  | (_, w) :: rest => ⟨whole_toJson w, whole_entriesJson rest⟩

end

end AttributeValue

/-- **Attributes come back**, as they were if they are read where they were written, and sorted at
every depth if they are read from the generic value. -/
theorem AttributeMap.returns {m : AttributeMap} (h : m.Distinct) :
    Wire.Returns AttributeMap.toJson (fun _ => AttributeMap.read) m m.sorted where
  whole := AttributeValue.whole_entriesJson m.entries
  fathomed _ := m.fathoms_toJson
  document _ := AttributeMap.read_toJson h
  generic _ := AttributeMap.read_canonical h

namespace Wire

/-! ## Reads -/

namespace KeysAndAttributes

/-- The entry with its attributes, and the names that it declares, sorted. -/
def sorted (k : KeysAndAttributes) : KeysAndAttributes :=
  { k with
    keys := k.keys.map AttributeMap.sorted
    expressionAttributeNames := k.expressionAttributeNames.byBytes }

/-- The names in the keys, and those that are declared, are different. -/
structure Distinct (k : KeysAndAttributes) : Prop where
  keys : ∀ m ∈ k.keys, m.Distinct
  names : k.expressionAttributeNames.Distinct

/-- The members of an entry of reads, each with the field that it is written from and read into. The
two lists of a part, its writer and its reader, are what `describes` ties to the actual writer and
reader of the entry. -/
def parts : List (Part KeysAndAttributes) := [
  .always "Keys" (·.keys) (listJson AttributeMap.toJson) fun _ => readList AttributeMap.read,
  .ifSome "ProjectionExpression" (·.projectionExpression) .string fun _ => readString,
  .ifEntries "ExpressionAttributeNames" (·.expressionAttributeNames) (mapJson .string)
    fun _ => readMap readString,
  .ifSome "ConsistentRead" (·.consistentRead) .bool fun _ => readBool]

/-- The parts are all that there is to an entry of reads: its writer writes them in this order, its
reader looks for no other names, and two entries with the same parts are the same. -/
theorem describes : Describes parts (fun _ => fields) toJson where
  different := by decide
  names _ := rfl
  shows _ := by
    simp only [parts, List.forall_mem_cons]
    refine ⟨?_, ?_, ?_, ?_, List.forall_mem_nil _⟩
    all_goals constructor <;> simp [fields, Part.always, Part.ifSome, Part.ifEntries]
  writes _ := rfl
  required _ field hfield hrequired := by
    -- only the keys are required of a description, so the options may be read as they come
    refine ⟨_, List.mem_cons_self, ?_, fun _ => Option.some_ne_none _⟩
    simp only [fields, List.mem_cons, List.not_mem_nil, or_false] at hfield
    rcases hfield with rfl | rfl | rfl | rfl
    · rfl
    all_goals cases hrequired
  ext a a' h := by
    obtain ⟨_, _, _, _⟩ := a
    obtain ⟨_, _, _, _⟩ := a'
    simpa [parts, Part.always, Part.ifSome, Part.ifEntries] using h

/-- **An entry of reads comes back**, part by part. Options that are absent are not written, and an
empty map of names is not written either; both are what a missing member is read as. -/
theorem returns {k : KeysAndAttributes} (h : k.Distinct) : Returns toJson read k k.sorted := by
  refine describes.returns "KeysAndAttributes" ?_
  simp only [parts, List.forall_mem_cons]
  refine ⟨?_, ?_, ?_, ?_, List.forall_mem_nil _⟩
  · exact Part.returns_always (.list fun m hm => AttributeMap.returns (h.keys m hm))
  · exact Part.returns_ifSome (f := id) rfl nofun (by simp [sorted]) fun s _ => returns_string s
  · have hnames : Returns (mapJson .string) (fun _ => readMap readString)
        k.expressionAttributeNames (k.expressionAttributeNames.mapValues id).byBytes :=
      .map h.names fun e _ => returns_string e.2
    rw [OrderedMap.mapValues_id] at hnames
    exact Part.returns_ifEntries rfl OrderedMap.byBytes_of_isEmpty hnames
  · exact Part.returns_ifSome (f := id) rfl nofun (by simp [sorted]) fun b _ => returns_bool b

end KeysAndAttributes

/-! ## Writes -/

namespace PutRequest

/-- A put has one part, the item. -/
theorem describes :
    Describes [.always "Item" (·.item) AttributeMap.toJson fun _ => AttributeMap.read]
      (fun _ => fields) toJson := by
  refine .single (fun _ => rfl) (fun _ _ => rfl) fun a a' h => ?_
  cases a
  cases a'
  exact congrArg mk h

/-- What is put comes back. -/
theorem returns {p : PutRequest} (h : p.item.Distinct) :
    Returns toJson read p { item := p.item.sorted } :=
  describes.returns_single "PutRequest" (AttributeMap.returns h)

end PutRequest

namespace DeleteRequest

/-- A delete has one part, the key. -/
theorem describes :
    Describes [.always "Key" (·.key) AttributeMap.toJson fun _ => AttributeMap.read]
      (fun _ => fields) toJson := by
  refine .single (fun _ => rfl) (fun _ _ => rfl) fun a a' h => ?_
  cases a
  cases a'
  exact congrArg mk h

/-- The key of what is deleted comes back. -/
theorem returns {d : DeleteRequest} (h : d.key.Distinct) :
    Returns toJson read d { key := d.key.sorted } :=
  describes.returns_single "DeleteRequest" (AttributeMap.returns h)

end DeleteRequest

namespace WriteRequest

/-- The write with its attributes sorted. -/
def sorted (w : WriteRequest) : WriteRequest where
  putRequest := w.putRequest.map fun p => { item := p.item.sorted }
  deleteRequest := w.deleteRequest.map fun d => { key := d.key.sorted }

/-- The names of what is put and of the key of what is deleted are different. -/
structure Distinct (w : WriteRequest) : Prop where
  put : ∀ p, w.putRequest = some p → p.item.Distinct
  delete : ∀ d, w.deleteRequest = some d → d.key.Distinct

/-- The members of an entry of writes. Each is there only if it is set, and nothing demands that
exactly one is. -/
def parts : List (Part WriteRequest) := [
  .ifSome "PutRequest" (·.putRequest) PutRequest.toJson PutRequest.read,
  .ifSome "DeleteRequest" (·.deleteRequest) DeleteRequest.toJson DeleteRequest.read]

/-- The parts are all that there is to an entry of writes, and none of them is required. -/
theorem describes : Describes parts fields toJson where
  different := by decide
  names _ := rfl
  shows _ := by
    simp only [parts, List.forall_mem_cons]
    refine ⟨?_, ?_, List.forall_mem_nil _⟩
    all_goals constructor <;> simp [fields, Part.ifSome]
  writes _ := rfl
  required _ := by simp [fields]
  ext a a' h := by
    obtain ⟨_, _⟩ := a
    obtain ⟨_, _⟩ := a'
    simpa [parts, Part.ifSome] using h

/-- **An entry of writes comes back**, whichever of its parts are set. -/
theorem returns {w : WriteRequest} (h : w.Distinct) : Returns toJson read w w.sorted := by
  refine describes.returns "WriteRequest" ?_
  simp only [parts, List.forall_mem_cons]
  refine ⟨?_, ?_, List.forall_mem_nil _⟩
  · exact Part.returns_ifSome rfl nofun rfl fun p hp => PutRequest.returns (h.put p hp)
  · exact Part.returns_ifSome rfl nofun rfl fun d hd => DeleteRequest.returns (h.delete d hd)

end WriteRequest

end Wire

end TableQuery
