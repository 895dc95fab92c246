import TableQuery.Proofs.Numbering

/-!
# What a request mentions

Whatever is done to the placeholder table of a request is a sequence of uses of columns and values.
`Placeholders.after` is the table after such a sequence. Starting from the empty table it is the
table `ofMentions`, in which the different columns and the different values stand under numbered
keys in the order of their first mention (`after_empty`), as long as the numbers do not run over.

* **`nameKey_ofMentions`**, **`valueKey_ofMentions`** — using one more column or value: the key is
  the one that it has in every later table.
* **`get?_nameOf`**, **`get?_valueOf`** — the key of what is mentioned is bound to it.
* **`mem_keys_names_iff`**, **`mem_keys_values_iff`** — the declared keys are those of what is
  mentioned, and no others.
-/

namespace TableQuery

/-- One use of the placeholder table. -/
inductive Mention where
  | column (name : String)
  | value (v : Value)

namespace Mention

def column? : Mention → Option String
  | .column name => some name
  | .value _ => none

def value? : Mention → Option Value
  | .column _ => none
  | .value v => some v

def columnsOf (ms : List Mention) : List String := ms.filterMap column?

def valuesOf (ms : List Mention) : List Value := ms.filterMap value?

@[simp] theorem columnsOf_nil : columnsOf [] = [] := rfl

@[simp] theorem valuesOf_nil : valuesOf [] = [] := rfl

@[simp] theorem columnsOf_cons_column (name : String) (ms : List Mention) :
    columnsOf (.column name :: ms) = name :: columnsOf ms := rfl

@[simp] theorem columnsOf_cons_value (v : Value) (ms : List Mention) :
    columnsOf (.value v :: ms) = columnsOf ms := rfl

@[simp] theorem valuesOf_cons_column (name : String) (ms : List Mention) :
    valuesOf (.column name :: ms) = valuesOf ms := rfl

@[simp] theorem valuesOf_cons_value (v : Value) (ms : List Mention) :
    valuesOf (.value v :: ms) = v :: valuesOf ms := rfl

@[simp] theorem columnsOf_append (ms later : List Mention) :
    columnsOf (ms ++ later) = columnsOf ms ++ columnsOf later := List.filterMap_append

@[simp] theorem valuesOf_append (ms later : List Mention) :
    valuesOf (ms ++ later) = valuesOf ms ++ valuesOf later := List.filterMap_append

@[simp] theorem columnsOf_map_value (vs : List Value) : columnsOf (vs.map .value) = [] := by
  induction vs with
  | nil => rfl
  | cons v rest ih => simpa using ih

@[simp] theorem valuesOf_map_value (vs : List Value) : valuesOf (vs.map .value) = vs := by
  induction vs with
  | nil => rfl
  | cons v rest ih => simpa using ih

@[simp] theorem columnsOf_map_column (names : List String) : columnsOf (names.map .column) = names := by
  induction names with
  | nil => rfl
  | cons name rest ih => simpa using ih

@[simp] theorem valuesOf_map_column (names : List String) : valuesOf (names.map .column) = [] := by
  induction names with
  | nil => rfl
  | cons name rest ih => simpa using ih

/-- The columns of a sequence are those that it uses somewhere. -/
theorem mem_columnsOf {ms : List Mention} {name : String} :
    name ∈ columnsOf ms ↔ .column name ∈ ms := by
  rw [columnsOf, List.mem_filterMap]
  constructor
  · rintro ⟨m, hm, h⟩
    cases m with
    | column c =>
      cases h
      exact hm
    | value v => cases h
  · exact fun h => ⟨_, h, rfl⟩

/-- The values of a sequence are those that it uses somewhere. -/
theorem mem_valuesOf {ms : List Mention} {v : Value} : v ∈ valuesOf ms ↔ .value v ∈ ms := by
  rw [valuesOf, List.mem_filterMap]
  constructor
  · rintro ⟨m, hm, h⟩
    cases m with
    | column c => cases h
    | value w =>
      cases h
      exact hm
  · exact fun h => ⟨_, h, rfl⟩

/-- There are keys for all the different columns and for all the different values. -/
structure InRange (ms : List Mention) : Prop where
  columns : (columnsOf ms).eraseDups.length ≤ KeySupply.capacity
  values : (valuesOf ms).eraseDups.length ≤ KeySupply.capacity

/-- What comes first mentions no more than all together. -/
theorem InRange.of_prefix {ms final : List Mention} (range : InRange final) (h : ms <+: final) :
    InRange ms := by
  obtain ⟨later, rfl⟩ := h
  obtain ⟨hcolumns, hvalues⟩ := range
  rw [columnsOf_append, List.eraseDups_append, List.length_append] at hcolumns
  rw [valuesOf_append, List.eraseDups_append, List.length_append] at hvalues
  exact ⟨by omega, by omega⟩

/-- What was mentioned at some point is still mentioned later. -/
theorem columnsOf_subset_of_prefix {ms final : List Mention} (h : ms <+: final) {c : String}
    (hc : c ∈ columnsOf ms) : c ∈ columnsOf final := by
  obtain ⟨later, rfl⟩ := h
  simp [hc]

/-- A value that was mentioned at some point is still mentioned later. -/
theorem valuesOf_subset_of_prefix {ms final : List Mention} (h : ms <+: final) {v : Value}
    (hv : v ∈ valuesOf ms) : v ∈ valuesOf final := by
  obtain ⟨later, rfl⟩ := h
  simp [hv]

/-- Two mentions in a row, one after the other. -/
theorem concat_prefix {ms later final : List Mention} {m : Mention} (h : ms ++ m :: later <+: final) :
    ms ++ [m] <+: final ∧ (ms ++ [m]) ++ later <+: final := by
  have hsplit : ms ++ m :: later = (ms ++ [m]) ++ later := by simp
  rw [hsplit] at h
  exact ⟨(List.prefix_append _ _).trans h, h⟩

end Mention

open Mention

namespace Placeholders

/-! ## The table after mentions -/

def mention (t : Placeholders) : Mention → Placeholders
  | .column name => (t.nameKey name).2
  | .value v => (t.valueKey v).2

def after (t : Placeholders) (ms : List Mention) : Placeholders := ms.foldl mention t

@[simp] theorem after_nil (t : Placeholders) : t.after [] = t := rfl

@[simp] theorem after_cons (t : Placeholders) (m : Mention) (ms : List Mention) :
    t.after (m :: ms) = (t.mention m).after ms := rfl

@[simp] theorem after_append (t : Placeholders) (ms later : List Mention) :
    t.after (ms ++ later) = (t.after ms).after later := List.foldl_append

/-- Taking the keys of several columns uses them from left to right. -/
theorem nameKeys_after (t : Placeholders) (columns : List String) :
    (t.nameKeys columns).2 = t.after (columns.map .column) := by
  induction columns generalizing t with
  | nil => rfl
  | cons column rest ih => exact ih _

/-- Taking the keys of several values uses them from left to right. -/
theorem valueKeys_after (t : Placeholders) (values : List Value) :
    (t.valueKeys values).2 = t.after (values.map .value) := by
  induction values generalizing t with
  | nil => rfl
  | cons value rest ih => exact ih _

/-- The columns to return are declared; nothing else is. -/
theorem projection_after (t : Placeholders) (columns : List String) :
    (t.projection columns).2 = t.after (columns.map .column) := by
  unfold projection
  cases columns with
  | nil => rfl
  | cons column rest => exact nameKeys_after t (column :: rest)

/-- Every declared key is one of its sigil, with a number. -/
structure Numbered (t : Placeholders) : Prop where
  names : ∀ key ∈ t.names.keys, KeySupply.IsKey nameSigil key
  values : ∀ key ∈ t.values.keys, KeySupply.IsKey valueSigil key
  nameSupply : t.nameSupply.sigil = nameSigil
  valueSupply : t.valueSupply.sigil = valueSigil

/-- The empty table declares no key, so all of its keys are numbered. -/
theorem numbered_empty : Numbered empty := ⟨nofun, nofun, rfl, rfl⟩

/-- One use declares at most one key, and that one comes from the supply of its own sigil. -/
theorem Numbered.mention {t : Placeholders} (h : t.Numbered) (m : Mention) :
    (t.mention m).Numbered := by
  cases m with
  | column name =>
    -- `declare` knows only the sigil of its own supply, so the keys are seen over that one first
    have hnames := h.names
    rw [← h.nameSupply] at hnames
    obtain ⟨hkeys, hsigil⟩ := KeySupply.declare_isKey hnames name
    rw [h.nameSupply] at hkeys hsigil
    exact ⟨hkeys, h.values, hsigil, h.valueSupply⟩
  | value v =>
    have hvalues := h.values
    rw [← h.valueSupply] at hvalues
    obtain ⟨hkeys, hsigil⟩ := KeySupply.declare_isKey hvalues v
    rw [h.valueSupply] at hkeys hsigil
    exact ⟨h.names, hkeys, h.nameSupply, hsigil⟩

/-- Keys have numbers in every table that mentions lead to, even if the numbers run over. -/
theorem Numbered.after {t : Placeholders} (h : t.Numbered) (ms : List Mention) :
    (t.after ms).Numbered := by
  induction ms generalizing t with
  | nil => exact h
  | cons m rest ih => exact ih (h.mention m)

/-- A declared name key is a name sigil with a number behind it. -/
theorem Numbered.isKey_name {t : Placeholders} (h : t.Numbered) {key : String}
    (hkey : t.declaresName key = true) : KeySupply.IsKey nameSigil key :=
  h.names key (OrderedMap.contains_iff.1 hkey)

/-- A declared value key is a value sigil with a number behind it. -/
theorem Numbered.isKey_value {t : Placeholders} (h : t.Numbered) {key : String}
    (hkey : t.declaresValue key = true) : KeySupply.IsKey valueSigil key :=
  h.values key (OrderedMap.contains_iff.1 hkey)

/-! ## Tables with numbered keys -/

/-- What is mentioned, under numbered keys in the order of its first mention. -/
def ofMentions (ms : List Mention) : Placeholders where
  names := KeySupply.numbered nameSigil (columnsOf ms).eraseDups
  values := KeySupply.numbered valueSigil (valuesOf ms).eraseDups
  nameSupply := KeySupply.after nameSigil (columnsOf ms).eraseDups.length
  valueSupply := KeySupply.after valueSigil (valuesOf ms).eraseDups.length

theorem empty_eq_ofMentions : empty = ofMentions [] := rfl

/-- The key that a column has, or would get. -/
def nameOf (t : Placeholders) (column : String) : String := (t.nameKey column).1

/-- The key that a value has, or would get. -/
def valueOf (t : Placeholders) (value : Value) : String := (t.valueKey value).1

/-- Using a column after a history of mentions: the key is that of the place of its first mention. -/
theorem nameKey_uses {ms : List Mention} {column : String}
    (range : InRange (ms ++ [.column column])) :
    (ofMentions ms).nameKey column
      = (KeySupply.nth nameSigil ((columnsOf ms ++ [column]).eraseDups.idxOf column + 1),
          ofMentions (ms ++ [.column column])) := by
  have room := range.columns
  rw [columnsOf_append] at room
  have step := KeySupply.declare_uses nameSigil (columnsOf ms) column room
  simp only [nameKey, ofMentions, step, columnsOf_append, columnsOf_cons_column, columnsOf_nil,
    valuesOf_append, valuesOf_cons_column, valuesOf_nil, List.append_nil]

/-- Using a value after a history of mentions: the key is that of the place of its first mention. -/
theorem valueKey_uses {ms : List Mention} {value : Value}
    (range : InRange (ms ++ [.value value])) :
    (ofMentions ms).valueKey value
      = (KeySupply.nth valueSigil ((valuesOf ms ++ [value]).eraseDups.idxOf value + 1),
          ofMentions (ms ++ [.value value])) := by
  have room := range.values
  rw [valuesOf_append] at room
  have step := KeySupply.declare_uses valueSigil (valuesOf ms) value room
  simp only [valueKey, ofMentions, step, valuesOf_append, valuesOf_cons_value, valuesOf_nil,
    columnsOf_append, columnsOf_cons_value, columnsOf_nil, List.append_nil]

/-- **The table after mentions.** One mention after the other is added to the numbered tables. -/
theorem after_ofMentions {ms later : List Mention} (range : InRange (ms ++ later)) :
    (ofMentions ms).after later = ofMentions (ms ++ later) := by
  induction later generalizing ms with
  | nil => simp
  | cons m rest ih =>
    have hsplit : ms ++ m :: rest = (ms ++ [m]) ++ rest := by simp
    have hone : InRange (ms ++ [m]) := by
      rw [hsplit] at range
      exact range.of_prefix (List.prefix_append _ _)
    -- one mention keeps the numbering, and the others start from there
    have hstep : (ofMentions ms).mention m = ofMentions (ms ++ [m]) := by
      cases m with
      | column name => exact congrArg Prod.snd (nameKey_uses hone)
      | value v => exact congrArg Prod.snd (valueKey_uses hone)
    rw [after_cons, hstep, hsplit]
    exact ih (hsplit ▸ range)

/-- The table of a request is given by what has been mentioned, in which order, and by nothing else.
-/
theorem after_empty {ms : List Mention} (range : InRange ms) : empty.after ms = ofMentions ms := by
  rw [empty_eq_ofMentions]
  exact after_ofMentions range

/-! ## The keys of what is mentioned -/

/-- The number of a column is its place among the different columns. -/
theorem nameOf_ofMentions {ms : List Mention} (range : InRange ms) {column : String}
    (h : column ∈ columnsOf ms) :
    (ofMentions ms).nameOf column
      = KeySupply.nth nameSigil ((columnsOf ms).eraseDups.idxOf column + 1) := by
  have hsame := KeySupply.eraseDups_concat_of_mem h
  have room := range.columns
  rw [← hsame] at room
  have step := KeySupply.declare_uses nameSigil (columnsOf ms) column room
  simp only [nameOf, nameKey, ofMentions, step, hsame]

/-- The number of a value is its place among the different values. -/
theorem valueOf_ofMentions {ms : List Mention} (range : InRange ms) {value : Value}
    (h : value ∈ valuesOf ms) :
    (ofMentions ms).valueOf value
      = KeySupply.nth valueSigil ((valuesOf ms).eraseDups.idxOf value + 1) := by
  -- a value that has been used before keeps its place, and needs no further key
  have hsame := KeySupply.eraseDups_concat_of_mem h
  have room := range.values
  rw [← hsame] at room
  have step := KeySupply.declare_uses valueSigil (valuesOf ms) value room
  simp only [valueOf, valueKey, ofMentions, step, hsame]

/-- A column that is used gets the key that it has in every later table. -/
theorem nameKey_ofMentions {ms final : List Mention} {column : String} (range : InRange final)
    (h : ms ++ [.column column] <+: final) :
    (ofMentions ms).nameKey column
      = ((ofMentions final).nameOf column, ofMentions (ms ++ [.column column])) := by
  have hmem : column ∈ columnsOf ms ++ [column] := by simp
  have hfinal : column ∈ columnsOf final := columnsOf_subset_of_prefix h (by simp)
  rw [nameKey_uses (range.of_prefix h), nameOf_ofMentions range hfinal]
  -- what is mentioned later does not change the place
  obtain ⟨later, rfl⟩ := h
  rw [columnsOf_append (ms ++ _), columnsOf_append ms, columnsOf_cons_column, columnsOf_nil,
    KeySupply.idxOf_eraseDups_append hmem]

/-- A value that is used gets the key that it has in every later table. -/
theorem valueKey_ofMentions {ms final : List Mention} {value : Value} (range : InRange final)
    (h : ms ++ [.value value] <+: final) :
    (ofMentions ms).valueKey value
      = ((ofMentions final).valueOf value, ofMentions (ms ++ [.value value])) := by
  have hmem : value ∈ valuesOf ms ++ [value] := by simp
  have hfinal : value ∈ valuesOf final := valuesOf_subset_of_prefix h (by simp)
  rw [valueKey_uses (range.of_prefix h), valueOf_ofMentions range hfinal]
  -- what is mentioned later does not change the place
  obtain ⟨later, rfl⟩ := h
  rw [valuesOf_append (ms ++ _), valuesOf_append ms, valuesOf_cons_value, valuesOf_nil,
    KeySupply.idxOf_eraseDups_append hmem]

/-- The keys taken for several columns are those that the columns have in every later table. -/
theorem nameKeys_ofMentions {ms final : List Mention} {columns : List String}
    (range : InRange final) (h : ms ++ columns.map .column <+: final) :
    ((ofMentions ms).nameKeys columns).1 = columns.map (ofMentions final).nameOf := by
  induction columns generalizing ms with
  | nil => rfl
  | cons column rest ih =>
    -- the first column counts as mentioned from here on, so the induction is over the longer prefix
    have hrest : (ms ++ [.column column]) ++ rest.map .column <+: final := by simpa using h
    have hone := (List.prefix_append _ _).trans hrest
    simp only [nameKeys, nameKey_ofMentions range hone, ih hrest, List.map_cons]

/-- The keys taken for several values are those that the values have in every later table. -/
theorem valueKeys_ofMentions {ms final : List Mention} {values : List Value}
    (range : InRange final) (h : ms ++ values.map .value <+: final) :
    ((ofMentions ms).valueKeys values).1 = values.map (ofMentions final).valueOf := by
  induction values generalizing ms with
  | nil => rfl
  | cons value rest ih =>
    have hrest : (ms ++ [.value value]) ++ rest.map .value <+: final := by simpa using h
    have hone := (List.prefix_append _ _).trans hrest
    simp only [valueKeys, valueKey_ofMentions range hone, ih hrest, List.map_cons]

/-! ## What the keys are bound to -/

/-- The key of a column that is mentioned is bound to this column. -/
theorem get?_nameOf {ms : List Mention} (range : InRange ms) {column : String}
    (h : column ∈ columnsOf ms) :
    (ofMentions ms).names.get? ((ofMentions ms).nameOf column) = some column := by
  rw [nameOf_ofMentions range h]
  exact (KeySupply.get?_numbered nameSigil _ _).trans (KeySupply.getElem?_idxOf_eraseDups h)

/-- The key of a value that is mentioned is bound to this value. -/
theorem get?_valueOf {ms : List Mention} (range : InRange ms) {value : Value}
    (h : value ∈ valuesOf ms) :
    (ofMentions ms).values.get? ((ofMentions ms).valueOf value) = some value := by
  rw [valueOf_ofMentions range h]
  exact (KeySupply.get?_numbered valueSigil _ _).trans (KeySupply.getElem?_idxOf_eraseDups h)

/-- Different columns have different keys. -/
theorem nameOf_inj {ms : List Mention} (range : InRange ms) {c d : String}
    (hc : c ∈ columnsOf ms) (hd : d ∈ columnsOf ms)
    (h : (ofMentions ms).nameOf c = (ofMentions ms).nameOf d) : c = d := by
  have hbound := get?_nameOf range hc
  rw [h, get?_nameOf range hd] at hbound
  exact (Option.some.inj hbound).symm

/-- Different values have different keys. -/
theorem valueOf_inj {ms : List Mention} (range : InRange ms) {v w : Value}
    (hv : v ∈ valuesOf ms) (hw : w ∈ valuesOf ms)
    (h : (ofMentions ms).valueOf v = (ofMentions ms).valueOf w) : v = w := by
  have hbound := get?_valueOf range hv
  rw [h, get?_valueOf range hw] at hbound
  exact (Option.some.inj hbound).symm

/-- The declared name keys are those of the columns that are mentioned, and no others. -/
theorem mem_keys_names_iff {ms : List Mention} (range : InRange ms) {key : String} :
    key ∈ (ofMentions ms).names.keys
      ↔ ∃ column ∈ columnsOf ms, key = (ofMentions ms).nameOf column := by
  refine KeySupply.mem_keys_numbered_iff.trans ?_
  constructor
  · rintro ⟨column, h, rfl⟩
    exact ⟨column, h, (nameOf_ofMentions range h).symm⟩
  · rintro ⟨column, h, rfl⟩
    exact ⟨column, h, nameOf_ofMentions range h⟩

/-- The declared value keys are those of the values that are mentioned, and no others. -/
theorem mem_keys_values_iff {ms : List Mention} (range : InRange ms) {key : String} :
    key ∈ (ofMentions ms).values.keys
      ↔ ∃ value ∈ valuesOf ms, key = (ofMentions ms).valueOf value := by
  refine KeySupply.mem_keys_numbered_iff.trans ?_
  constructor
  · rintro ⟨value, h, rfl⟩
    exact ⟨value, h, (valueOf_ofMentions range h).symm⟩
  · rintro ⟨value, h, rfl⟩
    exact ⟨value, h, valueOf_ofMentions range h⟩

end Placeholders

end TableQuery
