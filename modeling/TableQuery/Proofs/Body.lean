import TableQuery.Wire.Parameters

/-!
# Members of a body

The body of a request is a generic value: the members of an object are sorted by name. Sorting does
not change which members there are, so a map is left out of the body if and only if it is empty.

* **`get?_canonical_eq_none`** — an object has no member of a name if it is written with none.
* **`body_names_eq_none`**, **`body_values_eq_none`** — placeholder maps that are left out.
-/

namespace TableQuery

namespace Json

theorem lookup?_insertMember_self (name : String) (value : Json) (ms : List (String × Json)) :
    lookup? name (insertMember name value ms) = some value := by
  induction ms with
  | nil => simp [insertMember, lookup?]
  | cons m rest ih =>
    obtain ⟨k, v⟩ := m
    rw [insertMember]
    split
    · simp [lookup?]
    · split
      · simp [lookup?]
      · rename_i hne _
        rw [lookup?, if_neg hne, ih]

theorem lookup?_insertMember_of_ne {name other : String} (hne : other ≠ name) (value : Json)
    (ms : List (String × Json)) :
    lookup? other (insertMember name value ms) = lookup? other ms := by
  have hname : ¬name = other := fun h => hne h.symm
  induction ms with
  | nil => simp [insertMember, lookup?, hname]
  | cons m rest ih =>
    obtain ⟨k, v⟩ := m
    rw [insertMember]
    split
    · rename_i hk
      subst hk
      simp [lookup?, hname]
    · split
      · simp [lookup?, hname]
      · rw [lookup?, lookup?, ih]

/-- Sorting keeps the names. -/
theorem lookup?_sortMembers_eq_none {name : String} {ms : List (String × Json)} :
    lookup? name (sortMembers ms) = none ↔ name ∉ ms.map (·.1) := by
  unfold sortMembers
  -- the rest of the members are sorted into those before
  have general (sorted : List (String × Json)) :
      lookup? name (ms.foldl (fun sorted m => insertMember m.1 m.2 sorted) sorted) = none
        ↔ lookup? name sorted = none ∧ name ∉ ms.map (·.1) := by
    induction ms generalizing sorted with
    | nil => simp
    | cons m rest ih =>
      rw [List.foldl_cons, ih, List.map_cons, List.mem_cons]
      by_cases h : name = m.1
      · rw [h, lookup?_insertMember_self]
        simp
      · rw [lookup?_insertMember_of_ne h]
        simp [h]
  rw [general]
  simp [lookup?]

theorem map_fst_canonicalMembers (ms : List (String × Json)) :
    (canonicalMembers ms).map (·.1) = ms.map (·.1) := by
  induction ms with
  | nil => rfl
  | cons m rest ih =>
    obtain ⟨name, j⟩ := m
    rw [canonicalMembers, List.map_cons, List.map_cons, ih]

theorem get?_canonical_eq_none {name : String} {ms : List (String × Json)} :
    (object ms).canonical.get? name = none ↔ name ∉ ms.map (·.1) := by
  rw [canonical, get?, lookup?_sortMembers_eq_none, map_fst_canonicalMembers]

end Json

namespace Wire

/-- The name of a field, if it is present. -/
def fieldName (field : Option (String × Json)) : Option String := field.map (·.1)

theorem fieldName_ifSome {α : Type} (name : String) (write : α → Json) (a : Option α) :
    fieldName (ifSome name write a) = if a.isSome then some name else none := by
  cases a <;> rfl

theorem fieldName_ifEntries {α : Type} (name : String) (write : OrderedMap α → Json)
    (m : OrderedMap α) :
    fieldName (ifEntries name write m) = if m.isEmpty then none else some name := by
  unfold ifEntries
  split <;> rfl

/-- A record that is written without a field of some name has no such member. -/
theorem get?_recordJson_eq_none {name : String} {fields : List (Option (String × Json))} :
    (recordJson fields).canonical.get? name = none
      ↔ ∀ field ∈ fields, fieldName field ≠ some name := by
  rw [recordJson, Json.get?_canonical_eq_none, List.map_filterMap, List.mem_filterMap]
  exact ⟨fun h field hmem hname => h ⟨field, hmem, hname⟩,
    fun h ⟨field, hmem, hname⟩ => h field hmem hname⟩

namespace Parameters

theorem body_names_eq_none (p : Parameters) :
    p.body.get? "ExpressionAttributeNames" = none ↔ p.expressionAttributeNames.isEmpty = true := by
  rw [body, toJson, get?_recordJson_eq_none]
  simp [fieldName_ifSome, fieldName_ifEntries]

theorem body_values_eq_none (p : Parameters) :
    p.body.get? "ExpressionAttributeValues" = none
      ↔ p.expressionAttributeValues.isEmpty = true := by
  rw [body, toJson, get?_recordJson_eq_none]
  simp [fieldName_ifSome, fieldName_ifEntries]

end Parameters

end Wire

end TableQuery
