import Mathlib.Tactic.Tauto
import TableQuery.OrderedMap

/-!
# Building maps in order

A name that is not present goes to the end of a map. Hence a map that is built from entries with
different names has these entries, in their order (`ofList_of_nodup`).
-/

namespace TableQuery.OrderedMap

variable {α β : Type}

/-- A map contains the names that are among its keys. -/
theorem contains_iff {m : OrderedMap α} {key : String} : m.contains key = true ↔ key ∈ m.keys := by
  simp [contains, keys]

theorem size_eq_of_keys {m : OrderedMap α} {n : OrderedMap β} (h : m.keys = n.keys) :
    m.size = n.size := by
  have hlength := congrArg List.length h
  simpa [keys, size] using hlength

/-- A new name goes to the end. -/
theorem write_of_not_mem {key : String} {es : List (String × α)} (h : key ∉ es.map (·.1))
    (value : α) : write key value es = es ++ [(key, value)] := by
  induction es with
  | nil => rfl
  | cons e rest ih =>
    obtain ⟨k, v⟩ := e
    simp only [List.map_cons, List.mem_cons, not_or] at h
    rw [write, if_neg (fun hk => h.1 hk.symm), ih h.2]
    rfl

/-- Entries with new and different names are appended as they are. -/
theorem extend_of_nodup {es : List (String × α)} {m : OrderedMap α}
    (h : ((m.entries ++ es).map (·.1)).Nodup) : m.extend es = ⟨m.entries ++ es⟩ := by
  induction es generalizing m with
  | nil => simp [extend]
  | cons e rest ih =>
    have hnew : e.1 ∉ m.entries.map (·.1) := by
      rw [List.map_append, List.nodup_append] at h
      intro hmem
      exact h.2.2 e.1 hmem e.1 (by simp) rfl
    -- the first entry goes to the end of the map, and is one of its entries from then on
    have hinsert : m.insert e.1 e.2 = ⟨m.entries ++ [e]⟩ := by
      rw [insert, write_of_not_mem hnew]
    have hrest : (((m.insert e.1 e.2).entries ++ rest).map (·.1)).Nodup := by
      rw [hinsert]
      simpa using h
    show (m.insert e.1 e.2).extend rest = _
    rw [ih hrest, hinsert]
    simp

/-- Entries with different names make the map of these entries. -/
theorem ofList_of_nodup {es : List (String × α)} (h : (es.map (·.1)).Nodup) : ofList es = ⟨es⟩ := by
  unfold ofList
  rw [extend_of_nodup (by simpa [empty] using h)]
  rfl

/-- With different names, what is found is what there is. -/
theorem lookup_eq_some_iff {es : List (String × α)} (h : (es.map (·.1)).Nodup) {key : String} {a : α} :
    lookup key es = some a ↔ (key, a) ∈ es := by
  induction es with
  | nil => simp [lookup]
  | cons e rest ih =>
    obtain ⟨k, v⟩ := e
    rw [List.map_cons, List.nodup_cons] at h
    rw [lookup, List.mem_cons, Prod.mk.injEq]
    by_cases hk : k = key
    · -- the name does not come again
      have hrest : (key, a) ∉ rest := fun hmem =>
        h.1 (List.mem_map.2 ⟨(key, a), hmem, hk.symm⟩)
      simp [hk, hrest, eq_comm]
    · rw [if_neg hk, ih h.2]
      simp [Ne.symm hk]

/-- What is found does not depend on the order of the entries. -/
theorem lookup_perm {es ds : List (String × α)} (perm : es.Perm ds) (h : (es.map (·.1)).Nodup)
    (key : String) : lookup key es = lookup key ds := by
  have hds : (ds.map (·.1)).Nodup := (perm.map _).nodup_iff.1 h
  refine Option.ext fun a => ?_
  rw [lookup_eq_some_iff h, lookup_eq_some_iff hds, perm.mem_iff]

/-- Looking up is not affected by what is done to the values. -/
theorem lookup_map (f : α → β) (key : String) (es : List (String × α)) :
    lookup key (es.map fun e => (e.1, f e.2)) = (lookup key es).map f := by
  induction es with
  | nil => rfl
  | cons e rest ih =>
    obtain ⟨k, v⟩ := e
    rw [List.map_cons, lookup, lookup, ih]
    split <;> rfl

/-- What is bound stays bound where entries are only put after it. -/
theorem get?_of_prefix {m n : OrderedMap α} (h : m.entries <+: n.entries) {key : String} {a : α}
    (ha : m.get? key = some a) : n.get? key = some a := by
  obtain ⟨es⟩ := m
  obtain ⟨later, hn⟩ := h
  simp only [get?] at ha ⊢
  rw [← hn]
  clear hn
  induction es with
  | nil => simp [lookup] at ha
  | cons e rest ih =>
    obtain ⟨k, v⟩ := e
    rw [List.cons_append, lookup]
    rw [lookup] at ha
    -- the first entry of the key is found on both sides
    by_cases hk : k = key
    · rw [if_pos hk] at ha ⊢
      exact ha
    · rw [if_neg hk] at ha ⊢
      exact ih ha

/-! ## Building from repeated names -/

/-- Writing adds the name to the keys, and takes none away. -/
theorem mem_keys_insert {m : OrderedMap α} {key name : String} {value : α} :
    name ∈ (m.insert key value).keys ↔ name = key ∨ name ∈ m.keys := by
  rw [keys_insert]
  by_cases h : key ∈ m.keys
  · rw [if_pos h]
    exact ⟨.inr, fun hn => hn.elim (fun heq => heq ▸ h) id⟩
  · rw [if_neg h, List.mem_append, List.mem_singleton]
    exact Or.comm

/-- Extending adds the names of the entries to the keys. -/
theorem mem_keys_extend {m : OrderedMap α} {es : List (String × α)} {name : String} :
    name ∈ (m.extend es).keys ↔ name ∈ m.keys ∨ name ∈ es.map (·.1) := by
  induction es generalizing m with
  | nil => simp [extend]
  | cons e rest ih =>
    show name ∈ ((m.insert e.1 e.2).extend rest).keys ↔ _
    rw [ih, mem_keys_insert, List.map_cons, List.mem_cons]
    tauto

/-- The keys of a map are the names of the entries that it is made of. -/
theorem mem_keys_ofList {es : List (String × α)} {name : String} :
    name ∈ (ofList es).keys ↔ name ∈ es.map (·.1) := by
  unfold ofList
  rw [mem_keys_extend]
  exact ⟨fun h => h.elim (fun hm => nomatch hm) id, .inr⟩

/-- Only no entries make an empty map. -/
theorem isEmpty_ofList {es : List (String × α)} : (ofList es).isEmpty = es.isEmpty := by
  cases es with
  | nil => rfl
  | cons e rest =>
    -- the first name is among those of the map
    have hmem : e.1 ∈ (ofList (e :: rest)).keys := mem_keys_ofList.2 (List.mem_cons_self ..)
    unfold isEmpty
    rw [List.isEmpty_cons, List.isEmpty_eq_false_iff]
    intro hnil
    rw [keys, hnil] at hmem
    cases hmem

/-- Repetitions do no harm where all entries of a name have one value. -/
theorem get?_extend_of_agree {m : OrderedMap α} {es : List (String × α)} {name : String} {value : α}
    (agree : ∀ e ∈ es, e.1 = name → e.2 = value)
    (h : m.get? name = some value ∨ name ∈ es.map (·.1)) :
    (m.extend es).get? name = some value := by
  induction es generalizing m with
  | nil => exact h.resolve_right (by simp)
  | cons e rest ih =>
    have hrest : ∀ e ∈ rest, e.1 = name → e.2 = value :=
      fun e he => agree e (List.mem_cons_of_mem _ he)
    show ((m.insert e.1 e.2).extend rest).get? name = _
    by_cases heq : e.1 = name
    · -- whatever was there before is overwritten with the same value
      have hvalue := agree e (by simp) heq
      refine ih hrest (.inl ?_)
      rw [← heq, get?_insert_self, hvalue]
    · refine ih hrest (h.imp (fun hm => ?_) fun hmem => ?_)
      · rw [get?_insert_of_ne m (Ne.symm heq), hm]
      · rw [List.map_cons, List.mem_cons] at hmem
        exact hmem.resolve_left (Ne.symm heq)

/-- If all entries of a name agree, their value is found under it. -/
theorem get?_ofList_of_agree {es : List (String × α)} {name : String} {value : α}
    (agree : ∀ e ∈ es, e.1 = name → e.2 = value) (h : name ∈ es.map (·.1)) :
    (ofList es).get? name = some value := get?_extend_of_agree agree (.inr h)

theorem eq_empty_of_isEmpty {m : OrderedMap α} (h : m.isEmpty) : m = ∅ := by
  obtain ⟨es⟩ := m
  cases es with
  | nil => rfl
  | cons _ _ => cases h

theorem mapValues_id (m : OrderedMap α) : m.mapValues id = m := by
  obtain ⟨es⟩ := m
  simp [mapValues]

@[simp] theorem keys_mapValues (f : α → β) (m : OrderedMap α) : (m.mapValues f).keys = m.keys := by
  simp [mapValues, keys]

@[simp] theorem values_mapValues (f : α → β) (m : OrderedMap α) :
    (m.mapValues f).values = m.values.map f := by
  simp [mapValues, values]

/-- Mapping the values does not change where a value is written. -/
theorem insert_mapValues (f : α → β) (m : OrderedMap α) (key : String) (value : α) :
    (m.mapValues f).insert key (f value) = (m.insert key value).mapValues f := by
  obtain ⟨es⟩ := m
  simp only [insert, mapValues, OrderedMap.mk.injEq]
  induction es with
  | nil => rfl
  | cons e rest ih =>
    obtain ⟨k, v⟩ := e
    by_cases h : k = key
    · simp [write, h]
    · simp [write, h, ih]

/-- The names of a map that is built do not depend on the values. -/
theorem keys_extend_congr {m : OrderedMap α} {n : OrderedMap β} {es : List (String × α)}
    {ds : List (String × β)} (hkeys : m.keys = n.keys) (h : es.map (·.1) = ds.map (·.1)) :
    (m.extend es).keys = (n.extend ds).keys := by
  induction es generalizing m n ds with
  | nil =>
    rw [List.map_nil, eq_comm, List.map_eq_nil_iff] at h
    rw [h]
    exact hkeys
  | cons e rest ih =>
    cases ds with
    | nil => cases h
    | cons d ds =>
      rw [List.map_cons, List.map_cons, List.cons.injEq] at h
      refine ih (m := m.insert e.1 e.2) (n := n.insert d.1 d.2) ?_ h.2
      rw [keys_insert, keys_insert, hkeys, h.1]

/-- The keys of a map depend on the names of its entries only. -/
theorem keys_ofList_congr {es : List (String × α)} {ds : List (String × β)}
    (h : es.map (·.1) = ds.map (·.1)) : (ofList es).keys = (ofList ds).keys :=
  keys_extend_congr rfl h

/-! ## Values -/

/-- After writing, a value is the one that was written, or was there before. -/
theorem mem_values_insert {m : OrderedMap α} {key : String} {a value : α}
    (h : a ∈ (m.insert key value).values) : a = value ∨ a ∈ m.values := by
  obtain ⟨es⟩ := m
  simp only [insert, values] at h ⊢
  induction es with
  | nil => simpa [write] using h
  | cons e rest ih =>
    obtain ⟨k, v⟩ := e
    rw [write] at h
    split at h
    · rw [List.map_cons, List.mem_cons] at h ⊢
      exact h.imp_right .inr
    · rw [List.map_cons, List.mem_cons] at h ⊢
      exact h.elim (fun hv => .inr (.inl hv)) fun hrest => (ih hrest).imp_right .inr

/-- After extending, a value is one of the entries, or was there before. -/
theorem mem_values_extend {m : OrderedMap α} {es : List (String × α)} {a : α}
    (h : a ∈ (m.extend es).values) : a ∈ m.values ∨ a ∈ es.map (·.2) := by
  induction es generalizing m with
  | nil => exact .inl h
  | cons e rest ih =>
    rw [List.map_cons, List.mem_cons]
    rcases ih (m := m.insert e.1 e.2) h with hm | hrest
    · exact (mem_values_insert hm).elim (fun he => .inr (.inl he)) .inl
    · exact .inr (.inr hrest)

/-- Every value of a map was put into it. -/
theorem mem_values_ofList {es : List (String × α)} {a : α} (h : a ∈ (ofList es).values) :
    a ∈ es.map (·.2) := (mem_values_extend h).resolve_left List.not_mem_nil

end TableQuery.OrderedMap
