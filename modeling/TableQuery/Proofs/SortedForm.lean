import TableQuery.Proofs.GenericValue

/-!
# Sorted values

What is sent and what is received goes through a generic value, where the members of every object
are in the order of their names. So a value that has been sent and received has the entries of each
of its maps in the order of the bytes of their names (`sorted`), and is the same otherwise.

* **`AttributeValue.toJson_sorted`** — the generic value of a document is that of the sorted form.
* **`Value.toAttribute_sorted`** — the typed form of a sorted value is the sorted typed form.
* **`AttributeMap.read_canonical`** — an attribute map comes back sorted.
* **`AttributeMap.toJson_of_read`** — and what was read from a generic value is written as it was.
-/

namespace TableQuery

/-! ## Sorting at every depth -/

namespace Value

mutual

/-- The value with the entries of every map, at any depth, in the order of the bytes of their
names. -/
def sorted : Value → Value
  | .null => .null
  | .bool b => .bool b
  | .number n => .number n
  | .string s => .string s
  | .bytes b => .bytes b
  | .list elements => .list (sortedElements elements)
  | .map ⟨entries⟩ => .map ⟨sortEntries (sortedEntries entries)⟩
  | .stringSet elements => .stringSet elements
  | .numberSet literals => .numberSet literals
  | .bytesSet elements => .bytesSet elements

def sortedElements : List Value → List Value
  | [] => []
  | v :: rest => v.sorted :: sortedElements rest

def sortedEntries : List (String × Value) → List (String × Value)
  | [] => []
  | (name, v) :: rest => (name, v.sorted) :: sortedEntries rest

end

theorem sortedEntries_eq (es : List (String × Value)) :
    sortedEntries es = es.map fun e => (e.1, e.2.sorted) := by
  induction es with
  | nil => rfl
  | cons e rest ih => rw [sortedEntries, ih]; rfl

theorem map_fst_sortedEntries (es : List (String × Value)) :
    (sortedEntries es).map (·.1) = es.map (·.1) := by
  rw [sortedEntries_eq, List.map_map]
  rfl

theorem attributeEntries_eq (es : List (String × Value)) :
    attributeEntries es = es.map fun e => (e.1, e.2.toAttribute) := by
  induction es with
  | nil => rfl
  | cons e rest ih => rw [attributeEntries, ih]; rfl

/-- Entries repeat no name further down if none of their values does. -/
theorem distinctEntries_iff {es : List (String × Value)} :
    DistinctEntries es ↔ ∀ e ∈ es, e.2.Distinct := by
  induction es with
  | nil => simp [DistinctEntries]
  | cons e rest ih => rw [DistinctEntries, ih, List.forall_mem_cons]

/-- The literals of entries are those of their values. -/
theorem mem_literalsEntries {es : List (String × Value)} {l : String} :
    l ∈ literalsEntries es ↔ ∃ e ∈ es, l ∈ e.2.literals := by
  induction es with
  | nil => simp [literalsEntries]
  | cons e rest ih => simp [literalsEntries, ih]

mutual

/-- Sorting repeats no names: the entries of every map are the same, in another order. -/
theorem distinct_sorted : ∀ v : Value, v.Distinct → v.sorted.Distinct
  | .null, _ => trivial
  | .bool _, _ => trivial
  | .number _, _ => trivial
  | .string _, _ => trivial
  | .bytes _, _ => trivial
  | .list elements, h => distinctElements_sorted elements h
  | .map ⟨entries⟩, h => by
    -- the entries of a sorted map are a permutation of them with sorted values
    have perm := sortEntries_perm (sortedEntries entries)
    refine ⟨(perm.map _).nodup_iff.2 ?_, distinctEntries_iff.2 fun e he => ?_⟩
    · rw [map_fst_sortedEntries]
      exact h.1
    · exact distinctEntries_iff.1 (distinctEntries_sorted entries h.2) e (perm.subset he)
  | .stringSet _, _ => trivial
  | .numberSet _, _ => trivial
  | .bytesSet _, _ => trivial

theorem distinctElements_sorted : ∀ vs : List Value, DistinctElements vs →
    DistinctElements (sortedElements vs)
  | [], _ => trivial
  | v :: rest, h => ⟨distinct_sorted v h.1, distinctElements_sorted rest h.2⟩

theorem distinctEntries_sorted : ∀ es : List (String × Value), DistinctEntries es →
    DistinctEntries (sortedEntries es)
  | [], _ => trivial
  | (_, v) :: rest, h => ⟨distinct_sorted v h.1, distinctEntries_sorted rest h.2⟩

end

mutual

/-- Sorting keeps the literals, but for their order. -/
theorem mem_literals_sorted {l : String} : ∀ v : Value, l ∈ v.sorted.literals ↔ l ∈ v.literals
  | .null => Iff.rfl
  | .bool _ => Iff.rfl
  | .number _ => Iff.rfl
  | .string _ => Iff.rfl
  | .bytes _ => Iff.rfl
  | .list elements => mem_literals_sortedElements elements
  | .map ⟨entries⟩ => by
    rw [sorted, literals, literals, mem_literalsEntries, ← mem_literals_sortedEntries entries,
      mem_literalsEntries]
    simp only [(sortEntries_perm (sortedEntries entries)).mem_iff]
  | .stringSet _ => Iff.rfl
  | .numberSet _ => Iff.rfl
  | .bytesSet _ => Iff.rfl

/-- The elements of a list have the same literals after sorting. -/
theorem mem_literals_sortedElements {l : String} : ∀ vs : List Value,
    l ∈ literalsElements (sortedElements vs) ↔ l ∈ literalsElements vs
  | [] => Iff.rfl
  | v :: rest => by
    rw [sortedElements, literalsElements, literalsElements, List.mem_append, List.mem_append,
      mem_literals_sorted v, mem_literals_sortedElements rest]

/-- The values of entries have the same literals after sorting. -/
theorem mem_literals_sortedEntries {l : String} : ∀ es : List (String × Value),
    l ∈ literalsEntries (sortedEntries es) ↔ l ∈ literalsEntries es
  | [] => Iff.rfl
  | (_, v) :: rest => by
    rw [sortedEntries, literalsEntries, literalsEntries, List.mem_append, List.mem_append,
      mem_literals_sorted v, mem_literals_sortedEntries rest]

end

end Value

namespace AttributeValue

mutual

/-- The typed form with the entries of every map, at any depth, in the order of the bytes of their
names. -/
def sorted : AttributeValue → AttributeValue
  | .s text => .s text
  | .n literal => .n literal
  | .b bytes => .b bytes
  | .ss texts => .ss texts
  | .ns literals => .ns literals
  | .bs elements => .bs elements
  | .bool flag => .bool flag
  | .null flag => .null flag
  | .l elements => .l (sortedElements elements)
  | .m ⟨entries⟩ => .m ⟨sortEntries (sortedEntries entries)⟩

def sortedElements : List AttributeValue → List AttributeValue
  | [] => []
  | w :: rest => w.sorted :: sortedElements rest

def sortedEntries : List (String × AttributeValue) → List (String × AttributeValue)
  | [] => []
  | (name, w) :: rest => (name, w.sorted) :: sortedEntries rest

end

theorem map_fst_sortedEntries (es : List (String × AttributeValue)) :
    (sortedEntries es).map (·.1) = es.map (·.1) := by
  induction es with
  | nil => rfl
  | cons e rest ih => simp [sortedEntries, ih]

theorem entriesJson_eq (es : List (String × AttributeValue)) :
    entriesJson es = es.map fun e => (e.1, e.2.toJson) := by
  induction es with
  | nil => rfl
  | cons e rest ih => rw [entriesJson, ih]; rfl

mutual

/-- Sorting repeats no names in a typed form. -/
theorem distinct_sorted : ∀ w : AttributeValue, w.Distinct → w.sorted.Distinct
  | .s _, _ => trivial
  | .n _, _ => trivial
  | .b _, _ => trivial
  | .ss _, _ => trivial
  | .ns _, _ => trivial
  | .bs _, _ => trivial
  | .bool _, _ => trivial
  | .null _, _ => trivial
  | .l elements, h => distinctElements_sorted elements h
  | .m ⟨entries⟩, h => by
    have perm := sortEntries_perm (sortedEntries entries)
    refine ⟨(perm.map _).nodup_iff.2 ?_, distinctEntries_iff.2 fun w hw => ?_⟩
    · rw [map_fst_sortedEntries]
      exact h.1
    · exact distinctEntries_iff.1 (distinctEntries_sorted entries h.2) w ((perm.map _).subset hw)

theorem distinctElements_sorted : ∀ ws : List AttributeValue, DistinctElements ws →
    DistinctElements (sortedElements ws)
  | [], _ => trivial
  | w :: rest, h => ⟨distinct_sorted w h.1, distinctElements_sorted rest h.2⟩

theorem distinctEntries_sorted : ∀ es : List (String × AttributeValue), DistinctEntries es →
    DistinctEntries (sortedEntries es)
  | [], _ => trivial
  | (_, w) :: rest, h => ⟨distinct_sorted w h.1, distinctEntries_sorted rest h.2⟩

end

/-! ## Generic values of typed forms -/

/-- An array of strings has no members to sort. -/
theorem canonical_strings (texts : List String) :
    (Json.strings texts).canonical = .strings texts := by
  rw [Json.strings, Json.canonical, Json.canonicalElements_eq, List.map_map]
  rfl

mutual

/-- **The generic value of a document** is the document of the sorted form. -/
theorem toJson_sorted : ∀ w : AttributeValue, w.Distinct → w.sorted.toJson = w.toJson.canonical
  | .s _, _ => rfl
  | .n _, _ => rfl
  | .b _, _ => rfl
  | .ss texts, _ => by rw [sorted, toJson, Json.canonical_member, canonical_strings]
  | .ns literals, _ => by rw [sorted, toJson, Json.canonical_member, canonical_strings]
  | .bs all, _ => by rw [sorted, toJson, Json.canonical_member, canonical_strings]
  | .bool _, _ => rfl
  | .null _, _ => rfl
  | .l elements, h => by
    rw [sorted, toJson, toJson, listJson_sorted elements h, Json.canonical_member, Json.canonical]
  | .m ⟨entries⟩, h => by
    have hnames : ((Json.canonicalMembers (entriesJson entries)).map (·.1)).Nodup := by
      rw [Json.map_fst_canonicalMembers, map_fst_entriesJson]
      exact h.1
    -- sorting looks at the names, and writing does not change them
    have hsort : entriesJson (sortEntries (sortedEntries entries))
        = sortEntries (entriesJson (sortedEntries entries)) := by
      rw [entriesJson_eq, entriesJson_eq, sortEntries_map]
    rw [sorted, toJson, toJson, Json.canonical_member, Json.canonical, Json.sortMembers_eq hnames,
      hsort, entriesJson_sorted entries h.2]

/-- The generic value of elements is that of the sorted elements. -/
theorem listJson_sorted : ∀ ws : List AttributeValue, DistinctElements ws →
    listJson (sortedElements ws) = Json.canonicalElements (listJson ws)
  | [], _ => rfl
  | w :: rest, h => by
    rw [sortedElements, listJson, toJson_sorted w h.1, listJson_sorted rest h.2]
    rfl

/-- The generic values of entries are those of the sorted entries; their own order is not changed
yet. -/
theorem entriesJson_sorted : ∀ es : List (String × AttributeValue), DistinctEntries es →
    entriesJson (sortedEntries es) = Json.canonicalMembers (entriesJson es)
  | [], _ => rfl
  | (_, w) :: rest, h => by
    rw [sortedEntries, entriesJson, toJson_sorted w h.1, entriesJson_sorted rest h.2]
    rfl

end

end AttributeValue

/-! ## Typed forms of sorted values -/

namespace Value

mutual

/-- A typed form has no repeated names, even where the value has. -/
theorem distinct_toAttribute : ∀ v : Value, v.toAttribute.Distinct
  | .null => trivial
  | .bool _ => trivial
  | .number _ => trivial
  | .string _ => trivial
  | .bytes _ => trivial
  | .list elements => distinctElements_attribute elements
  | .map ⟨entries⟩ => by
    refine ⟨OrderedMap.distinct_ofList (attributeEntries entries),
      AttributeValue.distinctEntries_iff.2 fun w hw => ?_⟩
    exact AttributeValue.distinctEntries_iff.1 (distinctEntries_attribute entries) w
      (OrderedMap.mem_values_ofList hw)
  | .stringSet _ => trivial
  | .numberSet _ => trivial
  | .bytesSet _ => trivial

theorem distinctElements_attribute : ∀ vs : List Value,
    AttributeValue.DistinctElements (attributeElements vs)
  | [] => trivial
  | v :: rest => ⟨distinct_toAttribute v, distinctElements_attribute rest⟩

theorem distinctEntries_attribute : ∀ es : List (String × Value),
    AttributeValue.DistinctEntries (attributeEntries es)
  | [] => trivial
  | (_, v) :: rest => ⟨distinct_toAttribute v, distinctEntries_attribute rest⟩

end

mutual

/-- **The typed form of a sorted value** is the sorted typed form. -/
theorem toAttribute_sorted : ∀ v : Value, v.Distinct → v.sorted.toAttribute = v.toAttribute.sorted
  | .null, _ => rfl
  | .bool _, _ => rfl
  | .number _, _ => rfl
  | .string _, _ => rfl
  | .bytes _, _ => rfl
  | .list elements, h => by
    rw [sorted, toAttribute, attributeElements_sorted elements h, toAttribute,
      AttributeValue.sorted]
  | .map ⟨entries⟩, h => by
    -- conversion keeps the names, so the entries may as well be sorted after it
    have hsorted := (distinct_sorted (.map ⟨entries⟩) h).1
    have hsort : attributeEntries (sortEntries (sortedEntries entries))
        = sortEntries (attributeEntries (sortedEntries entries)) := by
      rw [attributeEntries_eq, attributeEntries_eq, sortEntries_map]
    rw [sorted, toAttribute, ofList_attributeEntries hsorted, hsort,
      attributeEntries_sorted entries h.2, toAttribute, ofList_attributeEntries h.1,
      AttributeValue.sorted]
  | .stringSet _, _ => rfl
  | .numberSet _, _ => rfl
  | .bytesSet _, _ => rfl

/-- Elements may be sorted before or after they are typed. -/
theorem attributeElements_sorted : ∀ vs : List Value, DistinctElements vs →
    attributeElements (sortedElements vs) = AttributeValue.sortedElements (attributeElements vs)
  | [], _ => rfl
  | v :: rest, h => by
    rw [sortedElements, attributeElements, toAttribute_sorted v h.1,
      attributeElements_sorted rest h.2]
    rfl

/-- The values of entries may be sorted before or after they are typed. -/
theorem attributeEntries_sorted : ∀ es : List (String × Value), DistinctEntries es →
    attributeEntries (sortedEntries es) = AttributeValue.sortedEntries (attributeEntries es)
  | [], _ => rfl
  | (_, v) :: rest, h => by
    rw [sortedEntries, attributeEntries, toAttribute_sorted v h.1, attributeEntries_sorted rest h.2]
    rfl

end

end Value

/-! ## Attribute maps -/

namespace AttributeMap

/-- The map in the order of the bytes of its names, with its values sorted. -/
def sorted (m : AttributeMap) : AttributeMap :=
  ⟨sortEntries (AttributeValue.sortedEntries m.entries)⟩

/-- The names of the map, and those within its values, are different. -/
abbrev Distinct (m : AttributeMap) : Prop := (AttributeValue.m m).Distinct

/-- Sorting repeats no names in an attribute map. -/
theorem Distinct.sorted {m : AttributeMap} (h : m.Distinct) : m.sorted.Distinct :=
  AttributeValue.distinct_sorted (.m m) h

/-- Sorting drops no entry and adds none, so only an empty map is empty afterwards. -/
theorem isEmpty_sorted (m : AttributeMap) : m.sorted.isEmpty = m.isEmpty := by
  obtain ⟨es⟩ := m
  have hlength := (sortEntries_perm (AttributeValue.sortedEntries es)).length_eq
  have hnames := congrArg List.length (AttributeValue.map_fst_sortedEntries es)
  rw [List.length_map, List.length_map] at hnames
  show (sortEntries (AttributeValue.sortedEntries es)).isEmpty = es.isEmpty
  rw [Bool.eq_iff_iff, List.isEmpty_iff_length_eq_zero, List.isEmpty_iff_length_eq_zero, hlength,
    hnames]

/-- An attribute map goes through a generic value as the sorted map. -/
theorem canonical_toJson {m : AttributeMap} (h : m.Distinct) :
    m.toJson.canonical = m.sorted.toJson := by
  obtain ⟨es⟩ := m
  have hdocument := AttributeValue.toJson_sorted (.m ⟨es⟩) h
  rw [AttributeValue.sorted, AttributeValue.toJson, AttributeValue.toJson,
    Json.canonical_member] at hdocument
  injection hdocument with hmembers
  injection hmembers with hmember
  injection hmember with _ hpayload
  exact hpayload.symm

/-- An attribute map is read like the payload of a map value. -/
theorem readMembers_eq (ending : Option Json.Break) (ms : List (Json.Name × Json.Draft)) :
    Json.readMembers AttributeValue.read ending ms = AttributeValue.readEntries ending ms := by
  induction ms with
  | nil => rfl
  | cons m rest ih => rw [Json.readMembers, AttributeValue.readEntries, ih]

/-- A map of attributes is read as the payload of a tagged document is. -/
theorem read_eq_ok {j : Json} {m : AttributeMap} :
    read j.toDraft = .ok m ↔ AttributeValue.ofJson? (.object [("M", j)]) = .ok (.m m) := by
  have htagged : AttributeValue.ofJson? (.object [("M", j)])
      = AttributeValue.readPayload "M" j.toDraft :=
    AttributeValue.readTagged_member "M" j.toDraft
  rw [htagged]
  cases j with
  | object ms =>
    show (Json.readMembers AttributeValue.read none (Json.draftMembers ms)).map _ = _
      ↔ (AttributeValue.readEntries none (Json.draftMembers ms)).map _ = _
    rw [readMembers_eq]
    cases AttributeValue.readEntries none (Json.draftMembers ms) <;> simp [Except.map]
  | _ => exact iff_of_false nofun nofun

/-- An attribute map is read from the document that it is written as. -/
theorem read_toJson {m : AttributeMap} (h : m.Distinct) : read m.toJson.toDraft = .ok m :=
  read_eq_ok.2 (AttributeValue.ofJson?_toJson h)

/-- **An attribute map comes back** from a generic value sorted, and otherwise as it was. -/
theorem read_canonical {m : AttributeMap} (h : m.Distinct) :
    read m.toJson.canonical.toDraft = .ok m.sorted := by
  rw [canonical_toJson h]
  exact read_toJson h.sorted

/-- **What is read from a document without repeated names** is written as this document. -/
theorem toJson_of_read {j : Json} {m : AttributeMap} (hj : j.Distinct)
    (h : read j.toDraft = .ok m) : m.toJson = j := by
  have hdocument := AttributeValue.toJson_of_ofJson? (Json.distinct_member.2 hj) (read_eq_ok.1 h)
  rw [AttributeValue.toJson] at hdocument
  injection hdocument with hmembers
  injection hmembers with hmember
  injection hmember with _ hpayload

end AttributeMap

/-- The typed form of an item has no name twice, since it is made from an ordered map. -/
theorem Item.distinct_toAttributes (item : Item) : item.toAttributes.Distinct :=
  Value.distinct_toAttribute (.map item)

end TableQuery
