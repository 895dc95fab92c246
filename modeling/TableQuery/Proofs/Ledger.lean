import TableQuery.Proofs.Mentions

/-!
# The ledger of a table

A table is only ever used in one way: it is asked for the key of a column or of a value. This module
says what holds of a whole run of such uses, from the empty table on, and of any two of its moments.

* **`binds_mono`** — what a key is bound to stays bound to it, whatever is used later.
* **`use_ofMentions`** — a use gets the key that its argument has in every later table of the run.
* **`keyOf_inj`** — in one table, different columns and values have different keys.
* **`after_columns`**, **`after_values`** — columns are declared as if no values had been used, and
  values as if no columns had been.
* **`ledger_of_uses`** — the ledger of a run, put together from these.
-/

namespace TableQuery

open Mention (columnsOf valuesOf InRange)

namespace Placeholders

/-! ## Uses -/

/-- The key that a use gets, and the table after it. -/
def use (t : Placeholders) : Mention → String × Placeholders
  | .column name => t.nameKey name
  | .value v => t.valueKey v

/-- The key that a use gets after a run of uses of a fresh table. -/
def keyAfter (before : List Mention) (m : Mention) : String := ((empty.after before).use m).1

/-- The key that a column or a value has, or would get. -/
def keyOf (t : Placeholders) : Mention → String
  | .column name => t.nameOf name
  | .value v => t.valueOf v

/-- The key stands for the column or the value. -/
def Binds (t : Placeholders) (key : String) : Mention → Prop
  | .column name => t.names.get? key = some name
  | .value v => t.values.get? key = some v

section

variable {ms final : List Mention} {m m' : Mention}

/-- **A use gets the key that its argument has in every later table of the run.** -/
theorem use_ofMentions (range : InRange final) (h : ms ++ [m] <+: final) :
    (ofMentions ms).use m = ((ofMentions final).keyOf m, ofMentions (ms ++ [m])) := by
  cases m with
  | column name => exact nameKey_ofMentions range h
  | value v => exact valueKey_ofMentions range h

theorem keyAfter_eq (range : InRange final) (h : ms ++ [m] <+: final) :
    keyAfter ms m = (ofMentions final).keyOf m := by
  have hbefore : InRange ms := range.of_prefix ((List.prefix_append _ _).trans h)
  rw [keyAfter, after_empty hbefore, use_ofMentions range h]

theorem binds_keyOf (range : InRange ms) (h : m ∈ ms) :
    (ofMentions ms).Binds ((ofMentions ms).keyOf m) m := by
  cases m with
  | column name => exact get?_nameOf range (Mention.mem_columnsOf.2 h)
  | value v => exact get?_valueOf range (Mention.mem_valuesOf.2 h)

/-- **Different columns and values have different keys.** The sigil tells columns from values. -/
theorem keyOf_inj (range : InRange ms) (h : m ∈ ms) (h' : m' ∈ ms)
    (hkey : (ofMentions ms).keyOf m = (ofMentions ms).keyOf m') : m = m' := by
  -- a key of a name is never the key of a value
  have apart {c : String} {v : Value} (hc : .column c ∈ ms) (hv : .value v ∈ ms) :
      (ofMentions ms).nameOf c ≠ (ofMentions ms).valueOf v := by
    intro heq
    rw [nameOf_ofMentions range (Mention.mem_columnsOf.2 hc),
      valueOf_ofMentions range (Mention.mem_valuesOf.2 hv)] at heq
    have hheads : some nameSigil = some valueSigil := by
      have := congrArg (fun key => key.toList.head?) heq
      simpa using this
    exact absurd hheads (by decide)
  cases m with
  | column c =>
    cases m' with
    | column c' =>
      have := nameOf_inj range (Mention.mem_columnsOf.2 h) (Mention.mem_columnsOf.2 h') hkey
      rw [this]
    | value v => exact absurd hkey (apart h h')
  | value v =>
    cases m' with
    | column c => exact absurd hkey.symm (apart h' h)
    | value w =>
      have := valueOf_inj range (Mention.mem_valuesOf.2 h) (Mention.mem_valuesOf.2 h') hkey
      rw [this]

/-- **What a key is bound to stays bound to it.** Later declarations go after the ones before. -/
theorem binds_mono {later : List Mention} {key : String}
    (h : (ofMentions ms).Binds key m) : (ofMentions (ms ++ later)).Binds key m := by
  cases m with
  | column name =>
    refine OrderedMap.get?_of_prefix ?_ h
    simp only [ofMentions, KeySupply.numbered, Mention.columnsOf_append, List.eraseDups_append,
      KeySupply.numberedFrom_append]
    exact List.prefix_append _ _
  | value v =>
    refine OrderedMap.get?_of_prefix ?_ h
    simp only [ofMentions, KeySupply.numbered, Mention.valuesOf_append, List.eraseDups_append,
      KeySupply.numberedFrom_append]
    exact List.prefix_append _ _

/-- What was used before is declared already. -/
theorem ofMentions_concat_of_mem (h : m ∈ ms) : ofMentions (ms ++ [m]) = ofMentions ms := by
  cases m with
  | column name =>
    have hmem := Mention.mem_columnsOf.2 h
    simp only [ofMentions, Mention.columnsOf_append, Mention.columnsOf_cons_column,
      Mention.columnsOf_nil, Mention.valuesOf_append, Mention.valuesOf_cons_column,
      Mention.valuesOf_nil, List.append_nil, KeySupply.eraseDups_concat_of_mem hmem]
  | value v =>
    have hmem := Mention.mem_valuesOf.2 h
    simp only [ofMentions, Mention.valuesOf_append, Mention.valuesOf_cons_value,
      Mention.valuesOf_nil, Mention.columnsOf_append, Mention.columnsOf_cons_value,
      Mention.columnsOf_nil, List.append_nil, KeySupply.eraseDups_concat_of_mem hmem]

end

/-! ## Columns and values apart

This does not depend on the numbers: it holds even where they have run over. -/

/-- Two tables that agree on columns: on the declarations and on the keys to come. -/
structure SameColumns (t t' : Placeholders) : Prop where
  names : t.names = t'.names
  supply : t.nameSupply = t'.nameSupply

/-- Two tables that agree on values. -/
structure SameValues (t t' : Placeholders) : Prop where
  values : t.values = t'.values
  supply : t.valueSupply = t'.valueSupply

section

variable {t t' : Placeholders}

/-- A column is declared alike, and gets the same key. -/
theorem SameColumns.nameKey (h : SameColumns t t') (column : String) :
    (t.nameKey column).1 = (t'.nameKey column).1
      ∧ SameColumns (t.nameKey column).2 (t'.nameKey column).2 := by
  unfold Placeholders.nameKey
  rw [h.names, h.supply]
  exact ⟨rfl, rfl, rfl⟩

theorem SameValues.valueKey (h : SameValues t t') (value : Value) :
    (t.valueKey value).1 = (t'.valueKey value).1
      ∧ SameValues (t.valueKey value).2 (t'.valueKey value).2 := by
  unfold Placeholders.valueKey
  rw [h.values, h.supply]
  exact ⟨rfl, rfl, rfl⟩

/-- **Columns are declared as if no values had been used.** -/
theorem after_columns (h : SameColumns t t') (ms : List Mention) :
    SameColumns (t.after ms) (t'.after ((columnsOf ms).map .column)) := by
  induction ms generalizing t t' with
  | nil => exact h
  | cons m rest ih =>
    cases m with
    | column name => exact ih (h.nameKey name).2
    | value v => exact ih (t := (t.valueKey v).2) ⟨h.names, h.supply⟩

/-- **Values are declared as if no columns had been used.** -/
theorem after_values (h : SameValues t t') (ms : List Mention) :
    SameValues (t.after ms) (t'.after ((valuesOf ms).map .value)) := by
  induction ms generalizing t t' with
  | nil => exact h
  | cons m rest ih =>
    cases m with
    | column name => exact ih (t := (t.nameKey name).2) ⟨h.values, h.supply⟩
    | value v => exact ih (h.valueKey v).2

/-- Runs with the same uses of columns end with tables that agree on columns. -/
theorem sameColumns_of_eq {ms ms' : List Mention} (h : columnsOf ms' = columnsOf ms) :
    SameColumns (empty.after ms') (empty.after ms) := by
  have hstart : SameColumns empty empty := ⟨rfl, rfl⟩
  have hms := after_columns hstart ms
  have hms' := after_columns hstart ms'
  rw [h] at hms'
  exact ⟨hms'.names.trans hms.names.symm, hms'.supply.trans hms.supply.symm⟩

theorem sameValues_of_eq {ms ms' : List Mention} (h : valuesOf ms' = valuesOf ms) :
    SameValues (empty.after ms') (empty.after ms) := by
  have hstart : SameValues empty empty := ⟨rfl, rfl⟩
  have hms := after_values hstart ms
  have hms' := after_values hstart ms'
  rw [h] at hms'
  exact ⟨hms'.values.trans hms.values.symm, hms'.supply.trans hms.supply.symm⟩

end

/-! ## The ledger -/

/-- What holds of a run of uses of a fresh table. The moments of the run are its prefixes. -/
structure Ledger (ms : List Mention) : Prop where
  /-- The keys of names are numbered without gaps, and stand for the columns in the order of their
  first use. -/
  nameKeys : (empty.after ms).names.keys
    = (List.range' 1 (columnsOf ms).eraseDups.length).map (KeySupply.nth nameSigil)
  columns : (empty.after ms).names.values = (columnsOf ms).eraseDups
  valueKeys : (empty.after ms).values.keys
    = (List.range' 1 (valuesOf ms).eraseDups.length).map (KeySupply.nth valueSigil)
  values : (empty.after ms).values.values = (valuesOf ms).eraseDups
  differentColumns : (empty.after ms).names.values.Nodup
  differentValues : (empty.after ms).values.values.Nodup
  /-- A use returns the key that is bound to its argument then. -/
  bound : ∀ before m, before ++ [m] <+: ms →
    (empty.after (before ++ [m])).Binds (keyAfter before m) m
  /-- Two uses return the same key if and only if their arguments are the same. -/
  same : ∀ before m before' m', before ++ [m] <+: ms → before' ++ [m'] <+: ms →
    (keyAfter before m = keyAfter before' m' ↔ m = m')
  /-- Values are compared by type and content, and maps in the order of their entries. -/
  sameValue : ∀ before v before' w, before ++ [.value v] <+: ms → before' ++ [.value w] <+: ms →
    (keyAfter before (.value v) = keyAfter before' (.value w) ↔ v.same w = true)
  /-- Bindings are neither changed nor removed. -/
  kept : ∀ before later, before ++ later <+: ms → ∀ key m,
    (empty.after before).Binds key m → (empty.after (before ++ later)).Binds key m
  /-- Using something again changes nothing. -/
  again : ∀ before m, before ++ [m] <+: ms → m ∈ before →
    (empty.after (before ++ [m])) = empty.after before
  /-- Another run with the same uses of columns, or of values, agrees on these. -/
  columnsApart : ∀ ms', columnsOf ms' = columnsOf ms →
    SameColumns (empty.after ms') (empty.after ms)
      ∧ ∀ column, keyAfter ms' (.column column) = keyAfter ms (.column column)
  valuesApart : ∀ ms', valuesOf ms' = valuesOf ms →
    SameValues (empty.after ms') (empty.after ms)
      ∧ ∀ value, keyAfter ms' (.value value) = keyAfter ms (.value value)

/-- **The ledger of a run of uses**, of any length, as long as there are keys for all the different
columns and for all the different values. Values are told apart by type and content, maps by the
order of their entries as well. -/
theorem ledger_of_uses {ms : List Mention} (range : InRange ms) : Ledger ms where
  nameKeys := by
    rw [after_empty range]
    exact KeySupply.keys_numbered nameSigil _
  columns := by
    rw [after_empty range]
    exact KeySupply.values_numbered nameSigil _
  valueKeys := by
    rw [after_empty range]
    exact KeySupply.keys_numbered valueSigil _
  values := by
    rw [after_empty range]
    exact KeySupply.values_numbered valueSigil _
  differentColumns := by
    rw [after_empty range, ofMentions, KeySupply.values_numbered]
    exact KeySupply.nodup_eraseDups _
  differentValues := by
    rw [after_empty range, ofMentions, KeySupply.values_numbered]
    exact KeySupply.nodup_eraseDups _
  bound := by
    intro before m h
    have hrange := range.of_prefix h
    rw [after_empty hrange, keyAfter_eq hrange (List.prefix_refl _)]
    exact binds_keyOf hrange (by simp)
  same := by
    -- both uses answer with the key that the final table has for what they mention
    intro before m before' m' h h'
    rw [keyAfter_eq range h, keyAfter_eq range h']
    have hmem : m ∈ ms := h.subset (by simp)
    have hmem' : m' ∈ ms := h'.subset (by simp)
    exact ⟨keyOf_inj range hmem hmem', fun heq => by rw [heq]⟩
  sameValue := by
    intro before v before' w h h'
    rw [keyAfter_eq range h, keyAfter_eq range h', Value.same_iff]
    have hmem : .value v ∈ ms := h.subset (by simp)
    have hmem' : .value w ∈ ms := h'.subset (by simp)
    exact ⟨fun hkey => Mention.value.inj (keyOf_inj range hmem hmem' hkey), fun heq => by rw [heq]⟩
  kept := by
    -- what a prefix of the uses has bound stays bound, since the numbering only grows
    intro before later h key m hbinds
    have hlater := range.of_prefix h
    rw [after_empty (hlater.of_prefix (List.prefix_append _ _))] at hbinds
    rw [after_empty hlater]
    exact binds_mono hbinds
  again := by
    intro before m h hmem
    have hrange := range.of_prefix h
    rw [after_empty hrange, after_empty (hrange.of_prefix (List.prefix_append _ _))]
    exact ofMentions_concat_of_mem hmem
  columnsApart := by
    intro ms' h
    have hsame := sameColumns_of_eq h
    exact ⟨hsame, fun column => (hsame.nameKey column).1⟩
  valuesApart := by
    intro ms' h
    have hsame := sameValues_of_eq h
    exact ⟨hsame, fun value => (hsame.valueKey value).1⟩

/-- A number and the string of its digits, and a map with its entries in another order, are different
values. -/
def mixedUses : List Mention :=
  [.column "Views", .value (.number "1"), .value (.string "1"), .column "Tags", .column "Views",
    .value (.map ⟨[("a", .null), ("b", .null)]⟩), .value (.number "1"),
    .value (.map ⟨[("b", .null), ("a", .null)]⟩)]

theorem ledger_of_uses_mixed :
    InRange mixedUses ∧ Ledger mixedUses
      ∧ (empty.after mixedUses).names.keys = ["#1", "#2"]
      ∧ (empty.after mixedUses).values.keys = [":1", ":2", ":3", ":4"] := by
  have range : InRange mixedUses := ⟨by decide, by decide⟩
  exact ⟨range, ledger_of_uses range, rfl, rfl⟩

end Placeholders

end TableQuery
