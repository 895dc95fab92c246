import TableQuery.Result
import TableQuery.Proofs.Compilation
import TableQuery.Proofs.Ledger
import TableQuery.Proofs.Records
import TableQuery.Proofs.SortedForm

/-!
# Bound values come back

The values of a request are sent as an attribute map under their keys, which is the typed form of an
item (`sentValues_eq`). If the store gives that item back, it is found in the response with its
entries sorted, and each value under the key that it was bound to.

* **`finalTable_values`** — the values of a request stand under numbered keys, in the order of their
  first mention, whatever else is declared beside them.
* **`singleItem_sent`** — an item that was sent and comes back has the entries of its maps sorted,
  or the first literal that is no number is reported.
* **`bound_values_come_back`** — the two together.
-/

namespace TableQuery

open Mention (valuesOf InRange)

/-! ## The values of a request -/

/-- The values are sent as the item of the values under their keys. -/
theorem Placeholders.sentValues_eq (t : Placeholders) :
    t.sentValues = Item.toAttributes t.values := by
  unfold Item.toAttributes
  rw [Value.attributeEntries_eq]
  rfl

namespace Request

section

variable {config : Config} {table : String} {steps : List Step} {updates : List Update.Call}
  {r : Request}

/-- **The values of a request** stand under numbered keys. There need be no keys for the columns. -/
theorem finalTable_values (made : (config.table table).steps steps = .ok r)
    (room : (valuesOf (mentions steps updates r.options.columns)).eraseDups.length
      ≤ KeySupply.capacity) :
    (r.finalTable updates).values
      = KeySupply.numbered valueSigil
          (valuesOf (mentions steps updates r.options.columns)).eraseDups := by
  generalize hms : mentions steps updates r.options.columns = ms at room
  have range : InRange ((valuesOf ms).map .value) := by
    refine ⟨?_, ?_⟩
    · rw [Mention.columnsOf_map_value]
      exact Nat.zero_le _
    · rw [Mention.valuesOf_map_value]
      exact room
  -- the values are declared as if no column were mentioned
  have hsame : Placeholders.SameValues (.after .empty ms)
      (.after .empty ((valuesOf ms).map .value)) := Placeholders.after_values ⟨rfl, rfl⟩ ms
  rw [finalTable_after made, hms, hsame.values, Placeholders.after_empty range]
  show KeySupply.numbered _ _ = _
  rw [Mention.valuesOf_map_value]

end

end Request

theorem Wire.Parameters.body_values {p : Wire.Parameters}
    (h : p.expressionAttributeValues.isEmpty = false) :
    p.body.get? "ExpressionAttributeValues"
      = some p.expressionAttributeValues.toJson.canonical := by
  rw [body, toJson, get?_ifEntries (List.mem_of_getLast? rfl), h]
  · rfl
  · simp [fieldName_ifSome, fieldName_ifEntries]

/-! ## An item that comes back -/

/-- The item with its attributes in the order of the bytes of their names, and with its values
sorted. -/
def Item.sorted (item : Item) : Item := ⟨sortEntries (Value.sortedEntries item.entries)⟩

namespace Item

variable {item : Item}

theorem distinct_sorted (h : (Value.map item).Distinct) : (Value.map item.sorted).Distinct :=
  Value.distinct_sorted (.map item) h

theorem sorted_eq_byBytes (item : Item) : item.sorted = (item.mapValues Value.sorted).byBytes := by
  rw [sorted, Value.sortedEntries_eq]
  rfl

theorem size_sorted (item : Item) : item.sorted.size = item.size := by
  rw [sorted_eq_byBytes, OrderedMap.size_byBytes]
  exact List.length_map _

/-- Each attribute is found under its name, sorted. -/
theorem get?_sorted (h : OrderedMap.Distinct item) (name : String) :
    item.sorted.get? name = (item.get? name).map Value.sorted := by
  have hnames : OrderedMap.Distinct (item.mapValues Value.sorted) := by
    unfold OrderedMap.Distinct
    rwa [OrderedMap.keys_mapValues]
  rw [sorted_eq_byBytes, OrderedMap.get?_byBytes hnames]
  exact OrderedMap.lookup_map Value.sorted name item.entries

theorem toAttributes_sorted (h : (Value.map item).Distinct) :
    item.toAttributes.sorted = item.sorted.toAttributes :=
  (AttributeValue.m.inj (Value.toAttribute_sorted (.map item) h)).symm

end Item

namespace Response

/-- **An item that was sent and comes back** is found in the response with the entries of its maps
sorted, unless one of its literals is no number. -/
theorem singleItem_sent {item : Item} (distinct : (Value.map item).Distinct)
    (present : item.isEmpty = false) (status : Nat) :
    singleItem { status, body := .object [("Item", item.toAttributes.toJson.canonical)] }
      = ((checked (Value.map item.sorted).literals item.sorted).mapError .invalidNumber).map
          fun item => { item := some item, attributes := none, metadata := { status } } := by
  have hdistinct := item.distinct_toAttributes
  have hread := AttributeMap.read_canonical hdistinct
  have hnull : item.toAttributes.toJson.canonical ≠ .null := by
    rw [AttributeMap.canonical_toJson hdistinct]
    exact nofun
  -- the response has no other member, so all other fields of the body stay blank
  have hbody : Wire.ItemBody.read .value
      (Json.object [("Item", item.toAttributes.toJson.canonical)]).toDraft
        = .ok { item := some item.toAttributes.sorted } := by
    refine Json.readRecord_member rfl ?_ ?_ .value "ItemOutput"
    · simp [Wire.ItemBody.fields]
    · exact Json.RecordField.fill_of (Json.readOption_eq_ok.2 (.inr ⟨hnull, _, hread, rfl⟩))
  have hpresent : item.toAttributes.sorted.isEmpty = false := by
    rw [AttributeMap.isEmpty_sorted, Item.isEmpty_toAttributes, present]
  -- the document was sorted when it was sent, and sorting it again changes nothing
  have hsorted := Json.canonical_of_sorted _ (Json.sorted_canonical item.toAttributes.toJson)
  have hitem : decodePresent (some item.toAttributes.sorted)
      = ((checked (Value.map item.sorted).literals item.sorted).mapError .invalidNumber).map
          some := by
    rw [decodePresent, hpresent, decodeItem, Item.toAttributes_sorted distinct,
      Item.toItem_toAttributes (Item.distinct_sorted distinct)]
    rfl
  rw [singleItem, readBody, Json.canonical_member, hsorted, hbody]
  show (decodePresent (some item.toAttributes.sorted) >>= fun _ => _) = _
  rw [hitem]
  cases checked (Value.map item.sorted).literals item.sorted <;> rfl

theorem singleItem_valid {item : Item} (distinct : (Value.map item).Distinct)
    (present : item.isEmpty = false)
    (valid : ∀ l ∈ (Value.map item).literals, Decimal.isNumeral l = true) (status : Nat) :
    singleItem { status, body := .object [("Item", item.toAttributes.toJson.canonical)] }
      = .ok { item := some item.sorted, attributes := none, metadata := { status } } := by
  have hread : checked (Value.map item.sorted).literals item.sorted = .ok item.sorted := by
    refine checked_eq_ok.2 ⟨fun l hl => valid l ?_, rfl⟩
    exact (Value.mem_literals_sorted (.map item)).1 hl
  rw [singleItem_sent distinct present, hread]
  rfl

/-- Of the literals that are no numbers, the first in the sorted item is reported. -/
theorem singleItem_invalid {item : Item} (distinct : (Value.map item).Distinct)
    (present : item.isEmpty = false)
    (invalid : ∃ l ∈ (Value.map item).literals, Decimal.isNumeral l = false) (status : Nat) :
    ∃ l ∈ (Value.map item).literals, Decimal.isNumeral l = false
      ∧ singleItem { status, body := .object [("Item", item.toAttributes.toJson.canonical)] }
        = .error (.invalidNumber l) := by
  have hmem {l : String} : l ∈ (Value.map item.sorted).literals ↔ l ∈ (Value.map item).literals :=
    Value.mem_literals_sorted (.map item)
  have hfound : ((Value.map item.sorted).literals.find? fun l => !Decimal.isNumeral l).isSome := by
    obtain ⟨l, hl, hbad⟩ := invalid
    exact List.find?_isSome.2 ⟨l, hmem.2 hl, by rw [hbad]; rfl⟩
  obtain ⟨l, hl⟩ := Option.isSome_iff_exists.1 hfound
  have hbad := List.find?_some hl
  simp only [Bool.not_eq_true'] at hbad
  refine ⟨l, hmem.1 (List.mem_of_find?_eq_some hl), hbad, ?_⟩
  rw [singleItem_sent distinct present, checked_eq_error.2 hl]
  rfl

end Response

/-! ## From the request to the response -/

namespace KeySupply

variable {sigil : Char} {vs : List Value}

theorem mem_values_numbered {v : Value} :
    (∃ e ∈ (numbered sigil vs).entries, e.2 = v) ↔ v ∈ vs := by
  rw [← List.mem_map, show (numbered sigil vs).entries.map (·.2) = vs from values_numbered sigil vs]

theorem size_numbered : (numbered sigil vs).size = vs.length := by
  have hlength := congrArg List.length (values_numbered sigil vs)
  rwa [OrderedMap.values, List.length_map] at hlength

theorem distinct_map_numbered (h : ∀ v ∈ vs, v.Distinct) :
    (Value.map (numbered sigil vs)).Distinct := by
  refine ⟨distinct_numbered sigil vs, Value.distinctEntries_iff.2 fun e he => ?_⟩
  exact h e.2 (mem_values_numbered.1 ⟨e, he, rfl⟩)

theorem mem_literals_numbered {l : String} :
    l ∈ (Value.map (numbered sigil vs)).literals ↔ ∃ v ∈ vs, l ∈ v.literals := by
  refine Value.mem_literalsEntries.trans ⟨?_, ?_⟩
  · rintro ⟨e, he, hl⟩
    exact ⟨e.2, mem_values_numbered.1 ⟨e, he, rfl⟩, hl⟩
  · rintro ⟨v, hv, hl⟩
    obtain ⟨e, he, rfl⟩ := mem_values_numbered.2 hv
    exact ⟨e, he, hl⟩

end KeySupply

namespace Request

/-- **Bound values come back.** A request whose different values are `vs`, in the order in which
they are first mentioned, sends them under `:1`, `:2`, and so on. If the store gives what it got
back as an item, then that item has as many attributes, and under each key the value that was bound
to it, with the entries of every map in the order of the bytes of their names. If one of the
literals is no number, such a literal is reported instead. The numbers of the keys have 32 bits, so
there is a key for every value unless there are more than four billion of them. -/
theorem bound_values_come_back {config : Config} {table : String} {steps : List Step} {r : Request}
    {command : Command} {p : Prepared} {vs : List Value}
    (made : (config.table table).steps steps = .ok r) (sent : r.prepare command = .ok p)
    (single : command.isBatch = false)
    (bound : (valuesOf (mentions steps command.updates r.options.columns)).eraseDups = vs)
    (present : vs ≠ []) (room : vs.length ≤ KeySupply.capacity)
    (distinct : ∀ v ∈ vs, v.Distinct) :
    ∃ echo, p.parameters.body.get? "ExpressionAttributeValues" = some echo
      ∧ ∀ status,
        ((∀ v ∈ vs, ∀ l ∈ v.literals, Decimal.isNumeral l = true) →
          ∃ item : Item,
            Response.singleItem { status, body := .object [("Item", echo)] }
                = .ok { item := some item, attributes := none, metadata := { status } }
              ∧ OrderedMap.Distinct item ∧ item.size = vs.length
              ∧ ∀ i, item.get? (KeySupply.nth valueSigil (i + 1)) = vs[i]?.map Value.sorted)
        ∧ ((∃ v ∈ vs, ∃ l ∈ v.literals, Decimal.isNumeral l = false) →
          ∃ v ∈ vs, ∃ l ∈ v.literals, Decimal.isNumeral l = false
            ∧ Response.singleItem { status, body := .object [("Item", echo)] }
                = .error (.invalidNumber l)) := by
  -- what is sent is the numbering of the bound values, which is an item like any other
  have hvalues : (r.finalTable command.updates).values = KeySupply.numbered valueSigil vs := by
    rw [finalTable_values made (bound ▸ room), bound]
  have hsent : p.parameters.expressionAttributeValues
      = Item.toAttributes (KeySupply.numbered valueSigil vs) := by
    rw [(prepare_compiled sent single).values, Placeholders.sentValues_eq, hvalues]
  have hdistinct : (Value.map (KeySupply.numbered valueSigil vs)).Distinct :=
    KeySupply.distinct_map_numbered distinct
  have hpresent : OrderedMap.isEmpty (KeySupply.numbered valueSigil vs) = false := by
    cases vs with
    | nil => exact absurd rfl present
    | cons v rest => rfl
  have hbody : p.parameters.expressionAttributeValues.isEmpty = false := by
    rw [hsent, Item.isEmpty_toAttributes, hpresent]
  refine ⟨_, Wire.Parameters.body_values hbody, fun status => ?_⟩
  rw [hsent]
  -- the literals of that item are the literals of the bound values
  refine ⟨fun valid => ?_, fun ⟨v, hv, l, hl, invalid⟩ => ?_⟩
  · have hliterals : ∀ l ∈ (Value.map (KeySupply.numbered valueSigil vs)).literals,
        Decimal.isNumeral l = true := fun l hl => by
      obtain ⟨v, hv, hmem⟩ := KeySupply.mem_literals_numbered.1 hl
      exact valid v hv l hmem
    refine ⟨_, Response.singleItem_valid hdistinct hpresent hliterals status,
      (Item.distinct_sorted hdistinct).1, ?_, fun i => ?_⟩
    · rw [Item.size_sorted, KeySupply.size_numbered]
    · rw [Item.get?_sorted (KeySupply.distinct_numbered valueSigil vs), KeySupply.get?_numbered]
  · have hliterals : l ∈ (Value.map (KeySupply.numbered valueSigil vs)).literals :=
      KeySupply.mem_literals_numbered.2 ⟨v, hv, hl⟩
    obtain ⟨l, hl, hbad, hresponse⟩ :=
      Response.singleItem_invalid hdistinct hpresent ⟨l, hliterals, invalid⟩ status
    obtain ⟨v, hv, hmem⟩ := KeySupply.mem_literals_numbered.1 hl
    exact ⟨v, hv, l, hmem, hbad, hresponse⟩

/-- Two values whose maps are not in order, one of them within a list, and a value in between that
is mentioned twice. -/
def statisticsSteps : List Step :=
  [.add .filter
    [.compare .and "Stats" (.equals (.map ⟨[("Views", .number "1e3"), ("Answered", .null)]⟩)),
      .between .or "Views" (.number "1.50") (.number "1.50") true,
      .compare .and "Log" (.operator "contains"
        (.list [.map ⟨[("é", .bytes [0]), ("z", .numberSet ["2", "1", "2"])]⟩]))]]

theorem bound_values_come_back_statistics :
    ∃ r p echo, (Config.table {} "Forum").steps statisticsSteps = .ok r
      ∧ r.prepare .scan = .ok p
      ∧ p.parameters.body.get? "ExpressionAttributeValues" = some echo
      ∧ ∃ item : Item,
          Response.singleItem { body := .object [("Item", echo)] }
              = .ok { item := some item, attributes := none, metadata := { status := 200 } }
            ∧ item.size = 3
            ∧ item.get? ":1" = some (.map ⟨[("Answered", .null), ("Views", .number "1e3")]⟩)
            ∧ item.get? ":2" = some (.number "1.50")
            ∧ item.get? ":3"
              = some (.list [.map ⟨[("z", .numberSet ["2", "1", "2"]), ("é", .bytes [0])]⟩]) := by
  have made : (Config.table {} "Forum").steps statisticsSteps = .ok _ := rfl
  have distinct : ∀ v ∈ [Value.map ⟨[("Views", .number "1e3"), ("Answered", .null)]⟩,
      .number "1.50", .list [.map ⟨[("é", .bytes [0]), ("z", .numberSet ["2", "1", "2"])]⟩]], v.Distinct := by
    simp [Value.Distinct, Value.DistinctEntries, Value.DistinctElements]
  obtain ⟨echo, hecho, back⟩ :=
    @bound_values_come_back {} "Forum" statisticsSteps _ .scan _ _ made rfl rfl rfl
      (List.cons_ne_nil _ _) (by decide) distinct
  obtain ⟨item, hitem, -, hsize, hget⟩ := (back 200).1 (by decide)
  exact ⟨_, _, echo, made, rfl, hecho, item, hitem, hsize, hget 0, hget 1, hget 2⟩

end Request

end TableQuery
