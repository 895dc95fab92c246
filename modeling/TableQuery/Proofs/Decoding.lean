import TableQuery.Result.Record
import TableQuery.Proofs.Arrival
import TableQuery.Proofs.Pagination

/-!
# Decoding is all or nothing

A response is decoded item by item, and table by table if it is that of a batch. All that can go
wrong once the body has been read is a number literal that is none. So the literals of the body, in
their order, decide whether there is a result, and what is reported if there is none
(`AllOrNothing`). The result holds the items of the body, one for one. Making records of these items
follows the same pattern, with a conversion that may refuse any item (`Promotes`).

* **`decodeItem_eq`**, **`decodeItems_eq`**, **`decodePresent_eq`**, **`decodeTables_eq`** — what is
  decoded, and which literals are checked for it.
* **`AllOrNothing.of_report`** — from this, when there is a result and what is reported otherwise.
* **`records_eq_ok`**, **`records_eq_error`** — the same for records.
* **`decoding_all_or_nothing`** — all responses and all records.
-/

namespace TableQuery

open Json (readPresent readOption readList readMap)

/-! ## Items of a body -/

namespace AttributeMap

/-- The number literals in the map, from left to right. -/
def literals (m : AttributeMap) : List String := AttributeValue.literalsEntries m.entries

/-- The item that the map stands for, whatever its literals are. -/
def plain (m : AttributeMap) : Item := ⟨AttributeValue.plainEntries m.entries⟩

end AttributeMap

/-- An attribute map is unmarshaled as an item. -/
def Unmarshals (m : AttributeMap) (item : Item) : Prop := m.toItem = .ok item

/-- What a body holds for one item: nothing at all, a null, or an attribute map. -/
inductive MayRead : Option Json → Option AttributeMap → Prop where
  | absent : MayRead none none
  | null : MayRead (some .null) none
  | present {j : Json} {m : AttributeMap} (h : Reads j m) : MayRead (some j) (some m)

/-- An item that may be there: no map, and also a map of no attributes, counts as none. -/
inductive MayUnmarshal : Option AttributeMap → Option Item → Prop where
  | absent : MayUnmarshal none none
  | empty : MayUnmarshal (some ∅) none
  | present {m : AttributeMap} {item : Item} (present : m.isEmpty = false) (h : Unmarshals m item) :
    MayUnmarshal (some m) (some item)

namespace Json

variable {α : Type}

/-- The members of an object are read with their names as texts. -/
theorem draftMembers_eq (ms : List (String × Json)) :
    draftMembers ms = ms.map fun m => (.text m.1, m.2.toDraft) := by
  induction ms with
  | nil => rfl
  | cons m rest ih => rw [draftMembers, ih]; rfl

/-- A map that is read from an object is built from its members. -/
theorem readMap_object {read : Reader α} {ms : List (String × Json)} {m : OrderedMap α}
    (h : readMap read (object ms).toDraft = .ok m) :
    ∃ pairs, List.Forall₂ (fun member pair => member.1 = pair.1
        ∧ read member.2.toDraft = .ok pair.2) ms pairs
      ∧ m = .ofList pairs := by
  obtain ⟨members, pairs, hmembers, hpairs, rfl⟩ := OrderedMap.readMap_eq_ok.1 h
  cases hmembers
  rw [draftMembers_eq, List.forall₂_map_left_iff] at hpairs
  exact ⟨pairs, hpairs.imp fun member pair hm => ⟨Except.ok.inj hm.1, hm.2⟩, rfl⟩

end Json

/-! ## Checking the literals of a body -/

/-- What is reported for literals: each one that is no number, in their order. -/
def offences (literals : List String) : List DecodingError :=
  (literals.filter fun l => !Decimal.isNumeral l).map .invalidNumber

/-- The offences of two lists are those of the first, then those of the second. -/
theorem offences_append (ls more : List String) :
    offences (ls ++ more) = offences ls ++ offences more := by
  rw [offences, List.filter_append, List.map_append]
  rfl

/-- There are none exactly if all literals are numbers. -/
theorem offences_eq_nil {ls : List String} :
    offences ls = [] ↔ ∀ l ∈ ls, Decimal.isNumeral l = true := by
  rw [offences, List.map_eq_nil_iff, List.filter_eq_nil_iff]
  simp

/-- There is a result if and only if all literals are numbers; otherwise the first that is none is
reported, and nothing else. -/
structure AllOrNothing {α : Type} (outcome : Except DecodingError α) (literals : List String)
    (result : α → Prop) : Prop where
  succeeds : (∃ a, outcome = .ok a) ↔ ∀ l ∈ literals, Decimal.isNumeral l = true
  refuses : ∀ e, outcome = .error e
    ↔ ∃ l, literals.find? (fun l => !Decimal.isNumeral l) = some l ∧ e = .invalidNumber l
  result : ∀ a, outcome = .ok a → result a

section

variable {α β : Type}

theorem checked_mapError (ls : List String) (a : α) :
    (checked ls a).mapError DecodingError.invalidNumber = report (offences ls) a := by
  unfold checked offences
  cases ls.filter fun l => !Decimal.isNumeral l <;> rfl

/-- **What is reported** for literals that are checked one after the other. -/
theorem AllOrNothing.of_report {ls : List String} {a : α} {result : α → Prop}
    (h : offences ls = [] → result a) : AllOrNothing (report (offences ls) a) ls result where
  succeeds := by
    rw [← offences_eq_nil]
    simp only [report_eq_ok]
    exact ⟨fun ⟨_, hnil, _⟩ => hnil, fun hnil => ⟨a, hnil, rfl⟩⟩
  refuses e := by
    rw [report_eq_error, offences, List.head?_map, List.head?_filter, Option.map_eq_some_iff]
    exact exists_congr fun l => and_congr_right' eq_comm
  result b hb := by
    obtain ⟨hnil, rfl⟩ := report_eq_ok.1 hb
    exact h hnil

/-- A map is converted value by value. -/
theorem traverse_report {ε : Type} {f : α → Except ε β} {es : α → List ε} {g : α → β}
    (h : ∀ a, f a = report (es a) (g a)) (m : OrderedMap α) :
    m.traverse f = report (m.values.flatMap es) (m.mapValues g) := by
  obtain ⟨entries⟩ := m
  have hentries : OrderedMap.traverseEntries f entries
      = report ((entries.map (·.2)).flatMap es) (entries.map fun e => (e.1, g e.2)) := by
    induction entries with
    | nil => rfl
    | cons e rest ih =>
      rw [OrderedMap.traverseEntries, h, ih]
      exact report_bind report_bind_pure
  rw [OrderedMap.traverse, hentries, report_map]
  rfl

end

namespace Response

/-- An item is decoded if its literals are numbers; otherwise the first that is none is reported. -/
theorem decodeItem_eq (m : AttributeMap) : decodeItem m = report (offences m.literals) m.plain := by
  rw [decodeItem, AttributeMap.toItem_eq, checked_mapError]
  rfl

/-- Items are decoded if the literals of all of them are numbers, in the order of the items. -/
theorem decodeItems_eq (ms : List AttributeMap) :
    decodeItems ms
      = report (offences (ms.flatMap AttributeMap.literals)) (ms.map AttributeMap.plain) := by
  induction ms with
  | nil => rfl
  | cons m rest ih =>
    rw [decodeItems, decodeItem_eq, ih, List.flatMap_cons, offences_append]
    exact report_bind report_bind_pure

/-- An empty map has no literals, so it makes no difference that it is not decoded. -/
theorem decodePresent_eq (m : Option AttributeMap) :
    decodePresent m = report (offences (m.toList.flatMap AttributeMap.literals))
      ((m.filter fun m => !m.isEmpty).map AttributeMap.plain) := by
  rcases m with _ | ⟨_ | ⟨e, rest⟩⟩
  · rfl
  · rfl
  · show (decodeItem ⟨e :: rest⟩).map some = _
    rw [decodeItem_eq, report_map, Option.toList_some, List.flatMap_singleton]
    rfl

/-- Tables are decoded if the literals of all of their items are numbers, table by table. -/
theorem decodeTables_eq (tables : OrderedMap (List AttributeMap)) :
    tables.traverse decodeItems
      = report (offences (tables.values.flatten.flatMap AttributeMap.literals))
          (tables.mapValues fun ms => ms.map AttributeMap.plain) := by
  rw [traverse_report decodeItems_eq]
  congr 1
  -- the offences of all tables are those of each table, one after the other
  induction tables.values with
  | nil => rfl
  | cons ms rest ih =>
    rw [List.flatMap_cons, ih, List.flatten_cons, List.flatMap_append, offences_append]

/-- A map whose literals are numbers is unmarshaled as the item that it stands for. -/
theorem unmarshals_plain {m : AttributeMap} (h : ∀ l ∈ m.literals, Decimal.isNumeral l = true) :
    Unmarshals m m.plain := by
  rw [Unmarshals, AttributeMap.toItem_eq]
  exact checked_eq_ok.2 ⟨h, rfl⟩

/-- With valid literals the items are those that the maps stand for. -/
theorem unmarshals_plains {ms : List AttributeMap}
    (h : ∀ l ∈ ms.flatMap AttributeMap.literals, Decimal.isNumeral l = true) :
    List.Forall₂ Unmarshals ms (ms.map AttributeMap.plain) := by
  rw [List.forall₂_map_right_iff, List.forall₂_same]
  exact fun m hm => unmarshals_plain fun l hl => h l (List.mem_flatMap.2 ⟨m, hm, hl⟩)

/-- A map that may be missing is unmarshaled if its literals are numbers; an empty one counts as
missing. -/
theorem mayUnmarshal_plain {m : Option AttributeMap}
    (h : ∀ l ∈ m.toList.flatMap AttributeMap.literals, Decimal.isNumeral l = true) :
    MayUnmarshal m ((m.filter fun m => !m.isEmpty).map AttributeMap.plain) := by
  -- no map, a map of no attributes, and any other
  rcases m with _ | ⟨_ | ⟨e, rest⟩⟩
  · exact .absent
  · exact .empty
  · refine .present rfl (unmarshals_plain ?_)
    simpa using h

/-! ## Documents of a body -/

/-- What the body holds for the item that was found. -/
def itemDocument (r : Response) : Option Json := r.body.canonical.field? "Item" 0

/-- What the body holds for the attributes that a write returns. -/
def attributesDocument (r : Response) : Option Json := r.body.canonical.field? "Attributes" 1

/-- The items that the body lists for each table. -/
def tableDocuments (r : Response) : List (String × List Json) :=
  match r.body.canonical.field? "Responses" 0 with
  | some (.object ms) => ms.map fun m => (m.1, match m.2 with | .array js => js | _ => [])
  | _ => []

variable {r : Response}

/-- The first field of the body is the item that was found. -/
theorem shows_item : Json.Shows (Wire.ItemBody.fields .value) "Item" (readOption AttributeMap.read)
    (·.item) := by
  constructor <;> simp [Wire.ItemBody.fields]

/-- The second field of the body are the attributes that a write returns. -/
theorem shows_attributes : Json.Shows (Wire.ItemBody.fields .value) "Attributes"
    (readOption AttributeMap.read) (·.attributes) := by
  constructor <;> simp [Wire.ItemBody.fields]

/-- The first field of the body of a batch are its items by table. -/
theorem shows_responses : Json.Shows (Wire.BatchGetBody.fields .value) "Responses"
    (readMap (readList AttributeMap.read)) (·.responses) := by
  constructor <;> simp [Wire.BatchGetBody.fields]

/-- A field that may be missing is read as a map, or there is none: it is missing, or it is null. -/
theorem mayRead_of_readPresent {j : Option Json} {m : Option AttributeMap}
    (h : readPresent (readOption AttributeMap.read) none j = .ok m) : MayRead j m := by
  cases j with
  | none =>
    cases h
    exact .absent
  | some j =>
    rcases Json.readOption_eq_ok.1 h with ⟨rfl, rfl⟩ | ⟨-, m, hread, rfl⟩
    · exact .null
    · exact .present hread

/-- What is read of the body of a single item is what the document holds under both names. -/
theorem documents_of_itemBody {body : Wire.ItemBody}
    (h : r.readBody "single item" (Wire.ItemBody.read .value) = .ok body) :
    MayRead r.itemDocument body.item ∧ MayRead r.attributesDocument body.attributes := by
  have hread := mapError_eq_ok.1 h
  have hnames : ((Wire.ItemBody.fields .value).map (·.name)).Nodup := by decide
  exact ⟨mayRead_of_readPresent (shows_item.readRecord hnames 0 rfl hread),
    mayRead_of_readPresent (shows_attributes.readRecord hnames 1 rfl hread)⟩

/-- What is read of the body of a page are the documents of its items, one for one. -/
theorem documents_of_itemsBody {body : Wire.ItemsBody}
    (h : r.readBody "multiple items" (Wire.ItemsBody.read .value) = .ok body) :
    List.Forall₂ Reads r.itemDocuments body.items := by
  have hnames : ((Wire.ItemsBody.fields .value).map (·.name)).Nodup := by decide
  exact reads_items (shows_items.readRecord hnames 0 rfl (mapError_eq_ok.1 h))

/-- What is read of the body of a batch are its documents: the same tables in the same order, and in
each table the same items. -/
theorem documents_of_batchGetBody {body : Wire.BatchGetBody}
    (h : r.readBody "batch get" (Wire.BatchGetBody.read .value) = .ok body) :
    List.Forall₂ (fun document table => document.1 = table.1
        ∧ List.Forall₂ Reads document.2 table.2)
      r.tableDocuments body.responses.entries := by
  have hnames : ((Wire.BatchGetBody.fields .value).map (·.name)).Nodup := by decide
  have htables := shows_responses.readRecord hnames 0 rfl (mapError_eq_ok.1 h)
  unfold tableDocuments
  cases hfield : r.body.canonical.field? "Responses" 0 with
  | none =>
    rw [hfield] at htables
    have hnil : body.responses = ∅ := (Except.ok.inj htables).symm
    rw [hnil]
    exact .nil
  | some j =>
    rw [hfield] at htables
    -- the body was sorted on its way, so no table is named twice in it
    have hsorted := Json.sorted_of_field? (Json.sorted_canonical r.body) hfield
    cases j with
    | object ms =>
      obtain ⟨pairs, hpairs, hresponses⟩ := Json.readMap_object htables
      -- the names are different, so the tables that are read are the members of the object
      have hpairsNames : pairs.map (·.1) = ms.map (·.1) := by
        rw [← List.forall₂_eq_eq_eq, List.forall₂_map_left_iff, List.forall₂_map_right_iff]
        exact hpairs.flip.imp fun pair m hm => hm.1.symm
      have hdistinct : (pairs.map (·.1)).Nodup := hpairsNames ▸ hsorted.1.nodup
      rw [hresponses, OrderedMap.ofList_of_nodup hdistinct]
      refine List.forall₂_map_left_iff.2 (hpairs.imp fun m pair hm => ⟨hm.1, ?_⟩)
      obtain ⟨js, hjs, hread⟩ := Json.readList_eq_ok.1 hm.2
      rw [hjs]
      exact hread
    | _ => cases htables

end Response

/-! ## Records -/

/-- Each item becomes one record, in the same order, with a copy of the metadata; or else the
refusal of the first item that is refused is reported, and nothing else. -/
structure Promotes {α : Type} (convert : Conversion α) (metadata : Metadata) (items : List Item)
    (outcome : Except DecodingError (List (Record α))) : Prop where
  succeeds : ∀ records, outcome = .ok records
    ↔ List.Forall₂ (fun item record => convert item = .ok record.value
        ∧ record.metadata = metadata) items records
  refuses : ∀ e, outcome = .error e
    ↔ ∃ before item after, items = before ++ item :: after
      ∧ (∀ i ∈ before, ∃ a, convert i = .ok a) ∧ convert item = .error e

namespace Conversion

variable {α : Type} {convert : Conversion α} {metadata : Metadata}

/-- A record is made of an item that its conversion accepts, with a copy of the metadata. -/
theorem record_eq_ok {item : Item} {record : Record α} :
    convert.record metadata item = .ok record
      ↔ convert item = .ok record.value ∧ record.metadata = metadata := by
  obtain ⟨value, own⟩ := record
  rw [Conversion.record, map_eq_ok]
  constructor
  · rintro ⟨a, ha, heq⟩
    cases heq
    exact ⟨ha, rfl⟩
  · rintro ⟨ha, rfl⟩
    exact ⟨value, ha, rfl⟩

/-- **Records are made item by item.** -/
theorem records_eq_ok {items : List Item} {records : List (Record α)} :
    convert.records metadata items = .ok records
      ↔ List.Forall₂ (fun item record => convert item = .ok record.value
          ∧ record.metadata = metadata) items records := by
  induction items generalizing records with
  | nil => cases records <;> simp [Conversion.records]
  | cons item rest ih =>
    rw [Conversion.records, List.forall₂_cons_left_iff, bind_eq_ok]
    constructor
    · rintro ⟨record, hrecord, h⟩
      obtain ⟨more, hmore, h⟩ := bind_eq_ok.1 h
      exact ⟨record, more, record_eq_ok.1 hrecord, ih.1 hmore, (Except.ok.inj h).symm⟩
    · rintro ⟨record, more, hrecord, hmore, rfl⟩
      exact ⟨record, record_eq_ok.2 hrecord, bind_eq_ok.2 ⟨more, ih.2 hmore, rfl⟩⟩

/-- **The first item that is refused** decides. -/
theorem records_eq_error {items : List Item} {e : DecodingError} :
    convert.records metadata items = .error e
      ↔ ∃ before item after, items = before ++ item :: after
        ∧ (∀ i ∈ before, ∃ a, convert i = .ok a) ∧ convert item = .error e := by
  induction items with
  | nil =>
    refine ⟨nofun, fun ⟨before, item, after, h, _⟩ => ?_⟩
    simp at h
  | cons first rest ih =>
    -- the first item fails, or it is converted and the rest fails; building the list never does
    rw [Conversion.records, bind_eq_error, Conversion.record, map_eq_error]
    constructor
    · rintro (hfirst | ⟨record, hrecord, h⟩)
      · exact ⟨[], first, rest, rfl, nofun, hfirst⟩
      · obtain ⟨value, hvalue, -⟩ := map_eq_ok.1 hrecord
        rcases bind_eq_error.1 h with hrest | ⟨more, -, hnever⟩
        · obtain ⟨before, item, after, rfl, hbefore, hitem⟩ := ih.1 hrest
          exact ⟨first :: before, item, after, rfl,
            List.forall_mem_cons.2 ⟨⟨value, hvalue⟩, hbefore⟩, hitem⟩
        · cases hnever
    · rintro ⟨before, item, after, heq, hbefore, hitem⟩
      cases before with
      | nil =>
        cases heq
        exact .inl hitem
      | cons b before =>
        cases heq
        obtain ⟨⟨value, hvalue⟩, hbefore⟩ := List.forall_mem_cons.1 hbefore
        refine .inr ⟨⟨value, metadata⟩, map_eq_ok.2 ⟨value, hvalue, rfl⟩, ?_⟩
        exact bind_eq_error.2 (.inl (ih.2 ⟨before, item, after, rfl, hbefore, hitem⟩))

theorem records_promotes (convert : Conversion α) (metadata : Metadata) (items : List Item) :
    Promotes convert metadata items (convert.records metadata items) :=
  ⟨fun _ => records_eq_ok, fun _ => records_eq_error⟩

end Conversion

/-! ## Responses -/

namespace Response

variable {r : Response}

/-- The response about one item follows the pattern, by the literals of the item and then of the
attributes. -/
theorem singleItem_allOrNothing {body : Wire.ItemBody}
    (h : r.readBody "single item" (Wire.ItemBody.read .value) = .ok body) :
    AllOrNothing r.singleItem
      ((body.item.toList ++ body.attributes.toList).flatMap AttributeMap.literals)
      fun s => MayUnmarshal body.item s.item ∧ MayUnmarshal body.attributes s.attributes := by
  rw [List.flatMap_append]
  -- the item and the attributes are decoded one after the other, and so are their offences met
  have hdecode : r.singleItem = report
      (offences (body.item.toList.flatMap AttributeMap.literals
        ++ body.attributes.toList.flatMap AttributeMap.literals))
      { item := (body.item.filter fun m => !m.isEmpty).map AttributeMap.plain
        attributes := (body.attributes.filter fun m => !m.isEmpty).map AttributeMap.plain
        metadata := { status := r.status, consumedCapacity := body.consumedCapacity.toList } } := by
    rw [singleItem, h, ok_bind, decodePresent_eq, decodePresent_eq, offences_append]
    exact report_bind report_bind_pure
  rw [hdecode]
  refine .of_report fun hnil => ?_
  obtain ⟨hitem, hattributes⟩ := List.append_eq_nil_iff.1 (offences_append _ _ ▸ hnil)
  exact ⟨mayUnmarshal_plain (offences_eq_nil.1 hitem),
    mayUnmarshal_plain (offences_eq_nil.1 hattributes)⟩

/-- A page follows the pattern, by the literals of its items. Those of its cursor do not count. -/
theorem page_allOrNothing {body : Wire.ItemsBody}
    (h : r.readBody "multiple items" (Wire.ItemsBody.read .value) = .ok body) :
    AllOrNothing r.page (body.items.flatMap AttributeMap.literals)
      fun p => List.Forall₂ Unmarshals body.items p.items := by
  rw [page, h, ok_bind, decodeItems_eq, report_bind_pure]
  exact .of_report fun hnil => unmarshals_plains (offences_eq_nil.1 hnil)

/-- The response to a batch follows the pattern, by the literals of all tables, one after the other.
-/
theorem batchItems_allOrNothing {body : Wire.BatchGetBody}
    (h : r.readBody "batch get" (Wire.BatchGetBody.read .value) = .ok body) :
    AllOrNothing r.batchItems (body.responses.values.flatten.flatMap AttributeMap.literals)
      fun b => List.Forall₂ (fun table found => table.1 = found.1
          ∧ List.Forall₂ Unmarshals table.2 found.2) body.responses.entries b.responses.entries
        ∧ List.Forall₂ Unmarshals body.responses.values.flatten b.items := by
  rw [batchItems, h, ok_bind, decodeTables_eq, report_bind_pure]
  refine .of_report fun hnil => ?_
  have hliterals := offences_eq_nil.1 hnil
  constructor
  · refine List.forall₂_map_right_iff.2 (List.forall₂_same.2 fun table htable => ⟨rfl, ?_⟩)
    -- the literals of one table are among those of all
    refine unmarshals_plains fun l hl => hliterals l ?_
    obtain ⟨m, hm, hl⟩ := List.mem_flatMap.1 hl
    have hvalues : table.2 ∈ body.responses.values := List.mem_map_of_mem htable
    exact List.mem_flatMap.2 ⟨m, List.mem_flatten.2 ⟨_, hvalues, hm⟩, hl⟩
  · show List.Forall₂ Unmarshals _ (OrderedMap.values _).flatten
    rw [OrderedMap.values_mapValues, ← List.map_flatten]
    exact unmarshals_plains hliterals

end Response

/-- **Decoding is all or nothing, and so are records.** Let the body of a response be read. It is
decoded if and only if all number literals of its items are numbers, and otherwise the first that is
none is reported: the item comes before the attributes, and items are taken table by table and one
after the other. What is decoded is the body's items, each of them unmarshaled, in their places; an
item without attributes counts as none. Neither the cursor nor the keys that are left are looked at.
The body holds what the documents of the response are read as, one for one. Records are made of the
items of a page or of all tables in the same order, each with a copy of the metadata, unless one
item is refused; then the refusal of the first such item is reported. -/
theorem decoding_all_or_nothing :
    (∀ (r : Response) (body : Wire.ItemBody),
        r.readBody "single item" (Wire.ItemBody.read .value) = .ok body →
          (MayRead r.itemDocument body.item ∧ MayRead r.attributesDocument body.attributes)
            ∧ AllOrNothing r.singleItem
              ((body.item.toList ++ body.attributes.toList).flatMap AttributeMap.literals)
              fun s => MayUnmarshal body.item s.item ∧ MayUnmarshal body.attributes s.attributes)
      ∧ (∀ (r : Response) (body : Wire.ItemsBody),
          r.readBody "multiple items" (Wire.ItemsBody.read .value) = .ok body →
            List.Forall₂ Reads r.itemDocuments body.items
              ∧ AllOrNothing r.page (body.items.flatMap AttributeMap.literals)
                fun p => List.Forall₂ Unmarshals body.items p.items)
      ∧ (∀ (r : Response) (body : Wire.BatchGetBody),
          r.readBody "batch get" (Wire.BatchGetBody.read .value) = .ok body →
            List.Forall₂ (fun document table => document.1 = table.1
                ∧ List.Forall₂ Reads document.2 table.2) r.tableDocuments body.responses.entries
              ∧ AllOrNothing r.batchItems
                (body.responses.values.flatten.flatMap AttributeMap.literals)
                fun b => List.Forall₂ (fun table found => table.1 = found.1
                    ∧ List.Forall₂ Unmarshals table.2 found.2)
                      body.responses.entries b.responses.entries
                  ∧ List.Forall₂ Unmarshals body.responses.values.flatten b.items)
      ∧ ∀ (α : Type) (convert : Conversion α),
          (∀ p : Page, Promotes convert p.metadata p.items (p.records convert))
            ∧ ∀ b : BatchItems, Promotes convert b.metadata b.items (b.records convert) := by
  refine ⟨fun r body h => ⟨Response.documents_of_itemBody h, Response.singleItem_allOrNothing h⟩,
    fun r body h => ⟨Response.documents_of_itemsBody h, Response.page_allOrNothing h⟩,
    fun r body h => ⟨Response.documents_of_batchGetBody h, Response.batchItems_allOrNothing h⟩,
    fun α convert => ⟨fun p => ?_, fun b => ?_⟩⟩
  · exact convert.records_promotes p.metadata p.items
  · exact convert.records_promotes b.metadata b.items

/-- An item without attributes, and attributes that were returned. -/
def updateResponse : Response :=
  { body := .object [
      ("Attributes", .object [("Views", .object [("N", .string "+7")])]),
      ("Item", .object [])] }

/-- Two literals that are no numbers, of which the one in the list comes first, and one that stands
in a cursor. -/
def misprintedPage : Response :=
  { body := .object [
      ("Items", .array [
        .object [("Id", .object [("N", .string "1")])],
        .object [
          ("Log", .object [("L", .array [.object [("NULL", .bool true)],
            .object [("NS", .array [.string "2", .string "two"])]])]),
          ("Views", .object [("N", .string "many")])]]),
      ("LastEvaluatedKey", .object [("Id", .object [("N", .string "none")])])] }

/-- The tables of a batch, in the order of their names. -/
def batchResponse : Response :=
  { body := .object [
      ("Responses", .object [
        ("Thread", .array [.object [("Subject", .object [("S", .string "b")])]]),
        ("Forum", .array [.object [("Name", .object [("S", .string "a")])], .object []])])] }

/-- Takes an item for its name. -/
def named : Conversion String := fun item =>
  match item.get? "Name" with
  | some (.string name) => .ok name
  | _ => .error (.conversion "Name is required")

/-- An update with returned attributes is decoded; a page with two offences reports the first;
records of a batch are refused for the item that has no name. -/
theorem decoding_all_or_nothing_forum :
    (∃ s : SingleItem, updateResponse.singleItem = .ok s ∧ MayUnmarshal (some ∅) s.item
        ∧ MayUnmarshal (some ⟨[("Views", .n "+7")]⟩) s.attributes)
      ∧ misprintedPage.page = .error (.invalidNumber "two")
      ∧ ∃ b : BatchItems, batchResponse.batchItems = .ok b
        ∧ List.Forall₂ Unmarshals
          [⟨[("Name", .s "a")]⟩, ∅, ⟨[("Subject", .s "b")]⟩] b.items
        ∧ b.records named = .error (.conversion "Name is required") := by
  obtain ⟨single, page, batch, records⟩ := decoding_all_or_nothing
  obtain ⟨s, hs⟩ := (single updateResponse _ rfl).2.succeeds.2 (by decide)
  obtain ⟨b, hb⟩ := (batch batchResponse _ rfl).2.succeeds.2 (by decide)
  obtain ⟨-, hitems⟩ := (batch batchResponse _ rfl).2.result b hb
  refine ⟨⟨s, hs, (single updateResponse _ rfl).2.result s hs⟩,
    ((page misprintedPage _ rfl).2.refuses _).2 ⟨"two", by decide, rfl⟩, b, hb, hitems, ?_⟩
  have hfound : b.items = [⟨[("Name", .string "a")]⟩, ∅, ⟨[("Subject", .string "b")]⟩] := by
    cases hb
    rfl
  -- the second item has no name, and the third is not looked at
  have hbefore : ∀ i ∈ [(⟨[("Name", .string "a")]⟩ : Item)], ∃ name, named i = .ok name :=
    List.forall_mem_singleton.2 ⟨"a", rfl⟩
  exact (((records String named).2 b).refuses _).2 ⟨_, ∅, _, hfound, hbefore, rfl⟩

end TableQuery
