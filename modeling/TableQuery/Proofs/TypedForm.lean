import TableQuery.AttributeValue.OfValue
import TableQuery.Proofs.OrderedMap
import TableQuery.Proofs.Report

/-!
# Values and their typed forms

A value has one typed form, and a typed form has one value if its number literals are numbers. The
value itself can be read off without looking at the literals (`AttributeValue.plain`), and the
literals can be listed without reading anything (`AttributeValue.literals`).

* **`toValue_eq`** — reading a typed form reports its first bad literal, or else gives its value.
* **`plain_toAttribute`**, **`literals_toAttribute`** — the typed form of a value has that value, and
  its literals.
* **`toAttribute_plain`** — the value of a typed form has that typed form, but for the flag that
  stands in a null.
* **`typed_form_round_trip`** — both directions, for values and for items.
-/

namespace TableQuery

/-! ## Names and literals -/

namespace Value

mutual

/-- In every map of the value, at any depth, the names are different. -/
def Distinct : Value → Prop
  | .null => True
  | .bool _ => True
  | .number _ => True
  | .string _ => True
  | .bytes _ => True
  | .list elements => DistinctElements elements
  | .map ⟨entries⟩ => (entries.map (·.1)).Nodup ∧ DistinctEntries entries
  | .stringSet _ => True
  | .numberSet _ => True
  | .bytesSet _ => True

def DistinctElements : List Value → Prop
  | [] => True
  | v :: rest => v.Distinct ∧ DistinctElements rest

def DistinctEntries : List (String × Value) → Prop
  | [] => True
  | (_, v) :: rest => v.Distinct ∧ DistinctEntries rest

end

mutual

/-- The number literals in a value, also those in sets, at any depth and from left to right. -/
def literals : Value → List String
  | .null => []
  | .bool _ => []
  | .number n => [n]
  | .string _ => []
  | .bytes _ => []
  | .list elements => literalsElements elements
  | .map ⟨entries⟩ => literalsEntries entries
  | .stringSet _ => []
  | .numberSet all => all
  | .bytesSet _ => []

def literalsElements : List Value → List String
  | [] => []
  | v :: rest => v.literals ++ literalsElements rest

def literalsEntries : List (String × Value) → List String
  | [] => []
  | (_, v) :: rest => v.literals ++ literalsEntries rest

end

end Value

namespace AttributeValue

mutual

/-- In every map of the typed form, at any depth, the names are different. -/
def Distinct : AttributeValue → Prop
  | .s _ => True
  | .n _ => True
  | .b _ => True
  | .ss _ => True
  | .ns _ => True
  | .bs _ => True
  | .bool _ => True
  | .null _ => True
  | .l elements => DistinctElements elements
  | .m ⟨entries⟩ => (entries.map (·.1)).Nodup ∧ DistinctEntries entries

def DistinctElements : List AttributeValue → Prop
  | [] => True
  | w :: rest => w.Distinct ∧ DistinctElements rest

def DistinctEntries : List (String × AttributeValue) → Prop
  | [] => True
  | (_, w) :: rest => w.Distinct ∧ DistinctEntries rest

end

mutual

/-- The number literals in a typed form, at any depth and from left to right. -/
def literals : AttributeValue → List String
  | .s _ => []
  | .n literal => [literal]
  | .b _ => []
  | .ss _ => []
  | .ns all => all
  | .bs _ => []
  | .bool _ => []
  | .null _ => []
  | .l elements => literalsElements elements
  | .m ⟨entries⟩ => literalsEntries entries

def literalsElements : List AttributeValue → List String
  | [] => []
  | w :: rest => w.literals ++ literalsElements rest

def literalsEntries : List (String × AttributeValue) → List String
  | [] => []
  | (_, w) :: rest => w.literals ++ literalsEntries rest

end

/-! ## The value of a typed form -/

mutual

/-- The value that a typed form stands for, whatever its literals are. -/
def plain : AttributeValue → Value
  | .s text => .string text
  | .n literal => .number literal
  | .b bytes => .bytes bytes
  | .ss texts => .stringSet texts
  | .ns literals => .numberSet literals
  | .bs elements => .bytesSet elements
  | .bool flag => .bool flag
  | .null _ => .null
  | .l elements => .list (plainElements elements)
  | .m ⟨entries⟩ => .map ⟨plainEntries entries⟩

def plainElements : List AttributeValue → List Value
  | [] => []
  | w :: rest => w.plain :: plainElements rest

def plainEntries : List (String × AttributeValue) → List (String × Value)
  | [] => []
  | (name, w) :: rest => (name, w.plain) :: plainEntries rest

end

mutual

/-- The typed form in which every null, at any depth, is flagged as one. -/
def flagged : AttributeValue → AttributeValue
  | .s text => .s text
  | .n literal => .n literal
  | .b bytes => .b bytes
  | .ss texts => .ss texts
  | .ns literals => .ns literals
  | .bs elements => .bs elements
  | .bool flag => .bool flag
  | .null _ => .null true
  | .l elements => .l (flaggedElements elements)
  | .m ⟨entries⟩ => .m ⟨flaggedEntries entries⟩

def flaggedElements : List AttributeValue → List AttributeValue
  | [] => []
  | w :: rest => w.flagged :: flaggedElements rest

def flaggedEntries : List (String × AttributeValue) → List (String × AttributeValue)
  | [] => []
  | (name, w) :: rest => (name, w.flagged) :: flaggedEntries rest

end

end AttributeValue

/-! ## Checking literals -/

/-- What is checked literal by literal: the first one that is no number is reported. -/
def checked {α : Type} (literals : List String) (a : α) : Except String α :=
  report (literals.filter fun l => !Decimal.isNumeral l) a

section

variable {α β : Type} {ls more : List String} {a : α} {b : β}

/-- Checks that follow one another report the first offence of all. -/
theorem checked_bind {f : α → Except String β} (h : f a = checked more b) :
    (checked ls a >>= f) = checked (ls ++ more) b := by
  rw [checked, report_bind h, checked, List.filter_append]

theorem checked_bind_pure {f : α → β} :
    (checked ls a >>= fun a => pure (f a)) = checked ls (f a) := report_bind_pure

theorem checked_map {f : α → β} : (checked ls a).map f = checked ls (f a) := report_map

/-- A check passes exactly if all literals are numbers, and then it gives the result. -/
theorem checked_eq_ok {c : α} :
    checked ls a = .ok c ↔ (∀ l ∈ ls, Decimal.isNumeral l = true) ∧ a = c := by
  rw [checked, report_eq_ok, List.filter_eq_nil_iff]
  simp

/-- A check reports the first literal that is no number. -/
theorem checked_eq_error {l : String} :
    checked ls a = .error l ↔ ls.find? (fun l => !Decimal.isNumeral l) = some l := by
  rw [checked, report_eq_error, List.head?_filter]

theorem checkNumeral_eq (literal : String) : checkNumeral literal = checked [literal] literal := by
  unfold checkNumeral checked
  cases h : Decimal.isNumeral literal <;> simp [h, report]

/-- The literals of a set are checked from left to right. -/
theorem checkNumerals_eq (literals : List String) :
    checkNumerals literals = checked literals literals := by
  induction literals with
  | nil => rfl
  | cons l rest ih =>
    rw [checkNumerals, checkNumeral_eq, ih]
    -- the first literal, then the rest, and the list of both
    exact checked_bind checked_bind_pure

end

/-! ## Reading a typed form -/

namespace AttributeValue

mutual

/-- **Reading a typed form** reports its first bad literal, or else gives its value. -/
theorem toValue_eq : ∀ w : AttributeValue, w.toValue = checked w.literals w.plain
  | .s _ => rfl
  | .n literal => by rw [toValue, checkNumeral_eq, checked_map]; rfl
  | .b _ => rfl
  | .ss _ => rfl
  | .ns all => by rw [toValue, checkNumerals_eq, checked_map]; rfl
  | .bs _ => rfl
  | .bool _ => rfl
  | .null _ => rfl
  | .l elements => by rw [toValue, unattributeElements_eq elements, checked_map]; rfl
  | .m ⟨entries⟩ => by rw [toValue, unattributeEntries_eq entries, checked_map]; rfl

/-- Elements are read if their literals are numbers, in the order of the list. -/
theorem unattributeElements_eq : ∀ elements : List AttributeValue,
    unattributeElements elements = checked (literalsElements elements) (plainElements elements)
  | [] => rfl
  | w :: rest => by
    rw [unattributeElements, toValue_eq w, unattributeElements_eq rest]
    exact checked_bind checked_bind_pure

/-- Entries are read if their literals are numbers, in the order of the map. -/
theorem unattributeEntries_eq : ∀ entries : List (String × AttributeValue),
    unattributeEntries entries = checked (literalsEntries entries) (plainEntries entries)
  | [] => rfl
  | (_, w) :: rest => by
    rw [unattributeEntries, toValue_eq w, unattributeEntries_eq rest]
    exact checked_bind checked_bind_pure

end

end AttributeValue

/-- The attributes of an item are read one after the other, as the entries of a map are. -/
theorem AttributeMap.toItem_eq (m : AttributeMap) :
    m.toItem = checked (AttributeValue.literalsEntries m.entries)
      ⟨AttributeValue.plainEntries m.entries⟩ := by
  have hentries (es : List (String × AttributeValue)) :
      OrderedMap.traverseEntries AttributeValue.toValue es
        = AttributeValue.unattributeEntries es := by
    induction es with
    | nil => rfl
    | cons e rest ih => rw [OrderedMap.traverseEntries, AttributeValue.unattributeEntries, ih]
  unfold AttributeMap.toItem OrderedMap.traverse
  rw [hentries, AttributeValue.unattributeEntries_eq, checked_map]

/-! ## The typed form of a value -/

namespace Value

/-- The typed form of entries has their names, in their order. -/
theorem map_fst_attributeEntries (es : List (String × Value)) :
    (attributeEntries es).map (·.1) = es.map (·.1) := by
  induction es with
  | nil => rfl
  | cons e rest ih => simp [attributeEntries, ih]

/-- Where the names are different, no entry is lost or moved. -/
theorem ofList_attributeEntries {es : List (String × Value)} (h : (es.map (·.1)).Nodup) :
    OrderedMap.ofList (attributeEntries es) = ⟨attributeEntries es⟩ := by
  refine OrderedMap.ofList_of_nodup ?_
  rwa [map_fst_attributeEntries]

mutual

/-- **The typed form of a value** stands for that value. -/
theorem plain_toAttribute : ∀ v : Value, v.Distinct → v.toAttribute.plain = v
  | .null, _ => rfl
  | .bool _, _ => rfl
  | .number _, _ => rfl
  | .string _, _ => rfl
  | .bytes _, _ => rfl
  | .list elements, h => by
    rw [toAttribute, AttributeValue.plain, plainElements_attribute elements h]
  | .map ⟨entries⟩, h => by
    rw [toAttribute, ofList_attributeEntries h.1, AttributeValue.plain,
      plainEntries_attribute entries h.2]
  | .stringSet _, _ => rfl
  | .numberSet _, _ => rfl
  | .bytesSet _, _ => rfl

/-- The typed forms of elements have these elements as their values. -/
theorem plainElements_attribute : ∀ elements : List Value, DistinctElements elements →
    AttributeValue.plainElements (attributeElements elements) = elements
  | [], _ => rfl
  | v :: rest, h => by
    rw [attributeElements, AttributeValue.plainElements, plain_toAttribute v h.1,
      plainElements_attribute rest h.2]

/-- The typed forms of entries have these entries as their values. -/
theorem plainEntries_attribute : ∀ entries : List (String × Value), DistinctEntries entries →
    AttributeValue.plainEntries (attributeEntries entries) = entries
  | [], _ => rfl
  | (_, v) :: rest, h => by
    rw [attributeEntries, AttributeValue.plainEntries, plain_toAttribute v h.1,
      plainEntries_attribute rest h.2]

end

mutual

/-- The typed form of a value has its literals, in the same order. -/
theorem literals_toAttribute : ∀ v : Value, v.Distinct → v.toAttribute.literals = v.literals
  | .null, _ => rfl
  | .bool _, _ => rfl
  | .number _, _ => rfl
  | .string _, _ => rfl
  | .bytes _, _ => rfl
  | .list elements, h => literalsElements_attribute elements h
  | .map ⟨entries⟩, h => by
    rw [toAttribute, ofList_attributeEntries h.1]
    exact literalsEntries_attribute entries h.2
  | .stringSet _, _ => rfl
  | .numberSet _, _ => rfl
  | .bytesSet _, _ => rfl

/-- The typed forms of elements have their literals, in the same order. -/
theorem literalsElements_attribute : ∀ elements : List Value, DistinctElements elements →
    AttributeValue.literalsElements (attributeElements elements) = literalsElements elements
  | [], _ => rfl
  | v :: rest, h => by
    rw [attributeElements, AttributeValue.literalsElements, literals_toAttribute v h.1,
      literalsElements_attribute rest h.2]
    rfl

/-- The typed forms of entries have their literals, in the same order. -/
theorem literalsEntries_attribute : ∀ entries : List (String × Value), DistinctEntries entries →
    AttributeValue.literalsEntries (attributeEntries entries) = literalsEntries entries
  | [], _ => rfl
  | (_, v) :: rest, h => by
    rw [attributeEntries, AttributeValue.literalsEntries, literals_toAttribute v h.1,
      literalsEntries_attribute rest h.2]
    rfl

end

end Value

/-! ## Back to the typed form -/

namespace AttributeValue

/-- The values of typed entries have their names, in their order. -/
theorem map_fst_plainEntries (es : List (String × AttributeValue)) :
    (plainEntries es).map (·.1) = es.map (·.1) := by
  induction es with
  | nil => rfl
  | cons e rest ih => simp [plainEntries, ih]

mutual

/-- **The value of a typed form** has that typed form, once its nulls are flagged. -/
theorem toAttribute_plain : ∀ w : AttributeValue, w.Distinct → w.plain.toAttribute = w.flagged
  | .s _, _ => rfl
  | .n _, _ => rfl
  | .b _, _ => rfl
  | .ss _, _ => rfl
  | .ns _, _ => rfl
  | .bs _, _ => rfl
  | .bool _, _ => rfl
  | .null _, _ => rfl
  | .l elements, h => by rw [plain, Value.toAttribute, attribute_plainElements elements h, flagged]
  | .m ⟨entries⟩, h => by
    -- the names of the value are those of the typed form, so they are different
    have hnames : ((plainEntries entries).map (·.1)).Nodup := by
      rw [map_fst_plainEntries]
      exact h.1
    rw [plain, Value.toAttribute, Value.ofList_attributeEntries hnames,
      attribute_plainEntries entries h.2, flagged]

/-- The typed forms of the values of elements are the elements, with their nulls flagged. -/
theorem attribute_plainElements : ∀ elements : List AttributeValue, DistinctElements elements →
    Value.attributeElements (plainElements elements) = flaggedElements elements
  | [], _ => rfl
  | w :: rest, h => by
    rw [plainElements, Value.attributeElements, toAttribute_plain w h.1,
      attribute_plainElements rest h.2, flaggedElements]

/-- The typed forms of the values of entries are the entries, with their nulls flagged. -/
theorem attribute_plainEntries : ∀ entries : List (String × AttributeValue),
    DistinctEntries entries → Value.attributeEntries (plainEntries entries) = flaggedEntries entries
  | [], _ => rfl
  | (_, w) :: rest, h => by
    rw [plainEntries, Value.attributeEntries, toAttribute_plain w h.1,
      attribute_plainEntries rest h.2, flaggedEntries]

end

end AttributeValue

/-! ## Round trips -/

/-- Reading the typed form of a value checks its literals, and gives the value. -/
theorem Value.toValue_toAttribute {v : Value} (h : v.Distinct) :
    v.toAttribute.toValue = checked v.literals v := by
  rw [AttributeValue.toValue_eq, v.literals_toAttribute h, v.plain_toAttribute h]

/-- The typed form of an item has its columns, in their order. -/
theorem Item.toAttributes_eq {item : Item} (h : (Value.map item).Distinct) :
    item.toAttributes = ⟨Value.attributeEntries item.entries⟩ := by
  obtain ⟨es⟩ := item
  exact Value.ofList_attributeEntries h.1

/-- An item comes back from its typed form if its literals are numbers. -/
theorem Item.toItem_toAttributes {item : Item} (h : (Value.map item).Distinct) :
    item.toAttributes.toItem = checked (Value.map item).literals item := by
  rw [item.toAttributes_eq h, AttributeMap.toItem_eq]
  obtain ⟨es⟩ := item
  rw [Value.literalsEntries_attribute es h.2, Value.plainEntries_attribute es h.2]
  rfl

/-- Items keep the names of their attributes in their order. -/
theorem Item.keys_toAttributes {item : Item} (h : (Value.map item).Distinct) :
    item.toAttributes.keys = item.keys := by
  rw [item.toAttributes_eq h]
  exact Value.map_fst_attributeEntries item.entries

/-- Only an empty item has an empty typed form, whatever names are repeated in it. -/
theorem Item.isEmpty_toAttributes {item : Item} : item.toAttributes.isEmpty = item.isEmpty := by
  obtain ⟨entries⟩ := item
  rw [Item.toAttributes, OrderedMap.isEmpty_ofList]
  cases entries <;> rfl

/-- **Values and typed forms** give each other back. Reading the typed form of a value gives the
value if and only if all its literals are numbers, and otherwise fails with the first that is none; a
typed form that has been read is the typed form of what was read, with its nulls flagged. Items keep
the names, the number and the order of their attributes as well. -/
theorem typed_form_round_trip :
    (∀ v : Value, v.Distinct →
        (v.toAttribute.toValue = .ok v ↔ ∀ l ∈ v.literals, Decimal.isNumeral l = true)
          ∧ ∀ l, v.toAttribute.toValue = .error l
            ↔ v.literals.find? (fun l => !Decimal.isNumeral l) = some l)
      ∧ (∀ w : AttributeValue, w.Distinct → ∀ v, w.toValue = .ok v → v.toAttribute = w.flagged)
      ∧ (∀ item : Item, (Value.map item).Distinct →
          (item.toAttributes.toItem = .ok item
              ↔ ∀ l ∈ (Value.map item).literals, Decimal.isNumeral l = true)
            ∧ (∀ l, item.toAttributes.toItem = .error l
              ↔ (Value.map item).literals.find? (fun l => !Decimal.isNumeral l) = some l)
            ∧ item.toAttributes.keys = item.keys ∧ item.toAttributes.size = item.size)
      ∧ ∀ m : AttributeMap, (AttributeValue.m m).Distinct → ∀ item, m.toItem = .ok item →
          AttributeValue.m item.toAttributes = (AttributeValue.m m).flagged
            ∧ item.keys = m.keys ∧ item.size = m.size := by
  refine ⟨fun v h => ?_, fun w h v hread => ?_, fun item h => ?_, fun m h item hread => ?_⟩
  · rw [v.toValue_toAttribute h]
    exact ⟨checked_eq_ok.trans (and_iff_left rfl), fun l => checked_eq_error⟩
  · rw [AttributeValue.toValue_eq] at hread
    obtain ⟨-, rfl⟩ := checked_eq_ok.1 hread
    exact w.toAttribute_plain h
  · have hnames := item.keys_toAttributes h
    rw [item.toItem_toAttributes h]
    exact ⟨checked_eq_ok.trans (and_iff_left rfl), fun l => checked_eq_error, hnames,
      OrderedMap.size_eq_of_keys hnames⟩
  · obtain ⟨es⟩ := m
    have hnames := AttributeValue.map_fst_plainEntries es
    rw [AttributeMap.toItem_eq] at hread
    obtain ⟨-, rfl⟩ := checked_eq_ok.1 hread
    exact ⟨AttributeValue.toAttribute_plain (.m ⟨es⟩) h, hnames, OrderedMap.size_eq_of_keys hnames⟩

/-- Numbers of every kind and a null, two levels deep. -/
def ratings : Item :=
  ⟨[("Scores", .numberSet ["1", "2.50"]),
    ("Replies", .list [.map ⟨[("Views", .number "+1e3"), ("Gone", .null)]⟩, .number "-.5"])]⟩

/-- Of two literals that are no numbers, the one in the set comes first. -/
def misprints : Value := .list [.bytes [0], .numberSet ["1", "1.2.3"], .map ⟨[("n", .number "")]⟩]

def flags : AttributeValue := .l [.null false, .m ⟨[("a", .null false), ("b", .null true)]⟩]

/-- Signs, exponents and a set of numbers come back as they are; the first of two bad literals is
reported; nulls that are not flagged come back flagged. -/
theorem typed_form_round_trip_nested :
    ratings.toAttributes.toItem = .ok ratings
      ∧ misprints.toAttribute.toValue = .error "1.2.3"
      ∧ ∃ v, flags.toValue = .ok v
        ∧ v.toAttribute = .l [.null true, .m ⟨[("a", .null true), ("b", .null true)]⟩] := by
  obtain ⟨values, forms, items, -⟩ := typed_form_round_trip
  have hratings : (Value.map ratings).Distinct := by
    simp [ratings, Value.Distinct, Value.DistinctEntries, Value.DistinctElements]
  have hmisprints : misprints.Distinct := by
    simp [misprints, Value.Distinct, Value.DistinctEntries, Value.DistinctElements]
  have hflags : flags.Distinct := by
    simp [flags, AttributeValue.Distinct, AttributeValue.DistinctEntries,
      AttributeValue.DistinctElements]
  exact ⟨(items ratings hratings).1.2 (by decide), ((values misprints hmisprints).2 _).2 (by decide),
    _, rfl, forms flags hflags _ rfl⟩

end TableQuery
