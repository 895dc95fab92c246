import Mathlib.Tactic.Tauto
import TableQuery.Proofs.Body
import TableQuery.Proofs.Compilation
import TableQuery.Proofs.Expression.Update
import TableQuery.Proofs.KeyChecks

/-!
# Requests are closed

The store refuses an expression with a key that is not declared, and a declaration that no
expression uses. Columns and values are declared as soon as they are mentioned, while expressions are
written at the end, from the clauses. A mention is lost in between only by a clause without an
expression, and then nothing is written at all.

* **`Compiled.mem_keys_names`**, **`Compiled.mem_keys_values`** — the keys in the expressions of a
  compiled request are those that its clauses, changes and columns to return refer to.
* **`Compiled.closed`** — these are the declared keys.
* **`requests_closed`** — every command sends a closed request, and a batch of reads declares the
  columns to return in its own entry.
-/

namespace TableQuery

open Mention (columnsOf valuesOf InRange)
open Placeholders (ofMentions)
open KeySupply (IsKey)
open Lexeme (keysIn)

namespace Wire.Parameters

/-- The expressions of a request, those that are present. -/
def expressions (p : Parameters) : List String :=
  p.filterExpression.toList ++ p.conditionExpression.toList ++ p.keyConditionExpression.toList
    ++ p.projectionExpression.toList ++ p.updateExpression.toList

/-- The keys that occur in the expressions of a request. -/
def keys (p : Parameters) (sigil : Char) : List String := p.expressions.flatMap (keysIn sigil)

/-- What occurs is declared, and what is declared occurs; a map without declarations is not sent. -/
structure Closed (p : Parameters) : Prop where
  names : ∀ key, key ∈ p.keys nameSigil ↔ key ∈ p.expressionAttributeNames.keys
  values : ∀ key, key ∈ p.keys valueSigil ↔ key ∈ p.expressionAttributeValues.keys
  namesSent : p.body.get? "ExpressionAttributeNames" = none ↔ p.keys nameSigil = []
  valuesSent : p.body.get? "ExpressionAttributeValues" = none ↔ p.keys valueSigil = []

theorem isEmpty_iff_keys {α : Type} {m : OrderedMap α} {keys : List String}
    (h : ∀ key, key ∈ keys ↔ key ∈ m.keys) : m.isEmpty = true ↔ keys = [] := by
  have hkeys : m.isEmpty = true ↔ m.keys = [] := by
    simp [OrderedMap.isEmpty, OrderedMap.keys]
  rw [hkeys, List.eq_nil_iff_forall_not_mem, List.eq_nil_iff_forall_not_mem]
  exact forall_congr' fun key => not_congr (h key).symm

/-- Maps that hold the occurring keys are left out if and only if there are none. -/
theorem Closed.of_keys {p : Parameters}
    (names : ∀ key, key ∈ p.keys nameSigil ↔ key ∈ p.expressionAttributeNames.keys)
    (values : ∀ key, key ∈ p.keys valueSigil ↔ key ∈ p.expressionAttributeValues.keys) :
    p.Closed :=
  ⟨names, values, p.body_names_eq_none.trans (isEmpty_iff_keys names),
    p.body_values_eq_none.trans (isEmpty_iff_keys values)⟩

end Wire.Parameters

/-! ## The keys in each expression -/

theorem Slot.exists_iff {P : Slot → Prop} :
    (∃ slot, P slot) ↔ P .filter ∨ P .condition ∨ P .keyCondition := by
  constructor
  · rintro ⟨slot, h⟩
    cases slot with
    | filter => exact .inl h
    | condition => exact .inr (.inl h)
    | keyCondition => exact .inr (.inr h)
  · rintro (h | h | h)
    · exact ⟨.filter, h⟩
    · exact ⟨.condition, h⟩
    · exact ⟨.keyCondition, h⟩

namespace Request

/-- The keys of the columns to return are all that their expression holds. -/
theorem selection_keys {keys : List String} (hkeys : ∀ key ∈ keys, IsKey nameSigil key) :
    (selection keys).toList.flatMap (keysIn nameSigil) = keys
      ∧ (selection keys).toList.flatMap (keysIn valueSigil) = [] := by
  cases keys with
  | nil => exact ⟨rfl, rfl⟩
  | cons key rest =>
    have hapart : Lexeme.Apart false (listedLexemes (key :: rest)) := by
      have h := apart_listedLexemes (x := []) (fun k hk => (hkeys k hk).isWord (by decide)) trivial
      rwa [List.append_nil] at h
    have hnames := keys_listedLexemes hkeys
    have hvalues := keys_listedLexemes_of_ne hkeys (show nameSigil ≠ valueSigil by decide)
    show [", ".intercalate (key :: rest)].flatMap _ = _ ∧ [", ".intercalate (key :: rest)].flatMap _ = _
    rw [Condition.intercalate_textOf, List.flatMap_singleton, List.flatMap_singleton,
      Lexeme.keysIn_textOf hapart, Lexeme.keysIn_textOf hapart]
    exact ⟨hnames, hvalues⟩

section

variable {r : Request} {updates : List Update.Call} {p : Wire.Parameters}

/-- Nothing is compiled from clauses with faults. -/
theorem Compiled.faultless (h : r.Compiled updates p) (numbered : (r.finalTable updates).Numbered)
    (slot : Slot) : Clause.faultsAll (r.conditions.clauses slot) = [] := by
  cases slot with
  | filter => exact (Condition.expression_keys numbered h.filter).1
  | condition => exact (Condition.expression_keys numbered h.condition).1
  | keyCondition => exact (Condition.expression_keys numbered h.keyCondition).1

/-- The keys of names in the expressions of a compiled request. -/
theorem Compiled.mem_keys_names (h : r.Compiled updates p)
    (numbered : (r.finalTable updates).Numbered)
    (hselected : ∀ key ∈ r.selectedKeys updates, IsKey nameSigil key) (key : String) :
    key ∈ p.keys nameSigil
      ↔ (∃ slot, key ∈ Clause.columnsAll (r.conditions.clauses slot))
        ∨ key ∈ (r.record updates).1.map Change.column ∨ key ∈ r.selectedKeys updates := by
  obtain ⟨-, hfilter, -⟩ := Condition.expression_keys numbered h.filter
  obtain ⟨-, hcondition, -⟩ := Condition.expression_keys numbered h.condition
  obtain ⟨-, hkeyCondition, -⟩ := Condition.expression_keys numbered h.keyCondition
  obtain ⟨update, hupdate, hexpression, -⟩ := h.update
  have hchanges := (Update.expression_keys numbered hupdate key).1
  obtain ⟨hselection, -⟩ := selection_keys hselected
  simp only [Wire.Parameters.keys, Wire.Parameters.expressions, List.flatMap_append,
    List.mem_append, hfilter, hcondition, hkeyCondition, h.projection, hselection, hexpression,
    hchanges, Slot.exists_iff, Conditions.clauses]
  tauto

/-- The keys of values in the expressions of a compiled request. -/
theorem Compiled.mem_keys_values (h : r.Compiled updates p)
    (numbered : (r.finalTable updates).Numbered)
    (hselected : ∀ key ∈ r.selectedKeys updates, IsKey nameSigil key) (key : String) :
    key ∈ p.keys valueSigil
      ↔ (∃ slot, key ∈ Clause.valuesAll (r.conditions.clauses slot))
        ∨ key ∈ (r.record updates).1.flatMap fun c => c.value?.toList := by
  obtain ⟨-, -, hfilter⟩ := Condition.expression_keys numbered h.filter
  obtain ⟨-, -, hcondition⟩ := Condition.expression_keys numbered h.condition
  obtain ⟨-, -, hkeyCondition⟩ := Condition.expression_keys numbered h.keyCondition
  obtain ⟨update, hupdate, hexpression, -⟩ := h.update
  have hchanges := (Update.expression_keys numbered hupdate key).2
  obtain ⟨-, hselection⟩ := selection_keys hselected
  simp only [Wire.Parameters.keys, Wire.Parameters.expressions, List.flatMap_append,
    List.mem_append, hfilter, hcondition, hkeyCondition, h.projection, hselection, hexpression,
    hchanges, Slot.exists_iff, Conditions.clauses, List.not_mem_nil, or_false]
  tauto

end

/-! ## What is mentioned occurs -/

section

variable {steps : List Step} {updates : List Update.Call} {columns : List String}

/-- Where every clause has an expression, the columns that are mentioned are those that clauses,
changes and columns to return speak of. -/
theorem mem_columnsOf_mentions (sound : Step.Sound steps) {c : String} :
    c ∈ columnsOf (mentions steps updates columns)
      ↔ (∃ slot, c ∈ Clause.columnsAll (steps.flatMap (Step.direct slot)))
        ∨ c ∈ (updates.flatMap Update.Call.direct).map Change.column ∨ c ∈ columns := by
  have hsteps : c ∈ columnsOf (steps.flatMap Step.mentions)
      ↔ ∃ slot, c ∈ Clause.columnsAll (steps.flatMap (Step.direct slot)) :=
    ⟨(Step.mentions_subset sound).1 c, fun ⟨slot, h⟩ => (Step.direct_subset slot steps).1 h⟩
  rw [mentions, Mention.columnsOf_append, Mention.columnsOf_append, List.mem_append,
    List.mem_append, hsteps, Update.columnsOf_flatMap_mentions, Mention.columnsOf_map_column,
    or_assoc]

/-- The values that are mentioned are those that clauses and changes speak of. -/
theorem mem_valuesOf_mentions (sound : Step.Sound steps) {v : Value} :
    v ∈ valuesOf (mentions steps updates columns)
      ↔ (∃ slot, v ∈ Clause.valuesAll (steps.flatMap (Step.direct slot)))
        ∨ v ∈ (updates.flatMap Update.Call.direct).flatMap fun c => c.value?.toList := by
  have hsteps : v ∈ valuesOf (steps.flatMap Step.mentions)
      ↔ ∃ slot, v ∈ Clause.valuesAll (steps.flatMap (Step.direct slot)) :=
    ⟨(Step.mentions_subset sound).2 v, fun ⟨slot, h⟩ => (Step.direct_subset slot steps).2 h⟩
  rw [mentions, Mention.valuesOf_append, Mention.valuesOf_append, List.mem_append,
    List.mem_append, hsteps, Update.valuesOf_flatMap_mentions, Mention.valuesOf_map_column]
  simp

end

/-! ## Closed requests -/

section

variable {r : Request} {steps : List Step} {updates : List Update.Call} {p : Wire.Parameters}

/-- The keys of columns to return have numbers. -/
theorem Keyed.isKey_selected (range : InRange (mentions steps updates r.options.columns))
    (keyed : r.Keyed steps updates (mentions steps updates r.options.columns)) {key : String}
    (h : key ∈ r.selectedKeys updates) : IsKey nameSigil key := by
  rw [keyed.selected] at h
  obtain ⟨c, hc, rfl⟩ := List.mem_map.1 h
  have hmem : c ∈ columnsOf (mentions steps updates r.options.columns) := by
    rw [mentions, Mention.columnsOf_append, Mention.columnsOf_map_column]
    exact List.mem_append_right _ hc
  exact ⟨_, Placeholders.nameOf_ofMentions range hmem⟩

/-- **A compiled request is closed**, if everything in it is keyed by the table of its mentions. -/
theorem Compiled.closed (h : r.Compiled updates p)
    (range : InRange (mentions steps updates r.options.columns))
    (keyed : r.Keyed steps updates (mentions steps updates r.options.columns)) : p.Closed := by
  have numbered : (r.finalTable updates).Numbered := by
    rw [keyed.table, ← Placeholders.after_empty range]
    exact Placeholders.numbered_empty.after _
  have hselected := fun key => @Keyed.isKey_selected r steps updates range keyed key
  -- keys in place of columns and values do not mend a fault
  have sound : Step.Sound steps := fun slot => by
    have hfaults := h.faultless numbered slot
    rwa [keyed.clauses slot, Clause.faultsAll_mapAll] at hfaults
  refine Wire.Parameters.Closed.of_keys (fun key => ?_) fun key => ?_
  · -- both sides are the keys of the columns that are mentioned
    rw [h.mem_keys_names numbered hselected, h.names, keyed.table,
      Placeholders.mem_keys_names_iff range, keyed.changes, keyed.selected]
    simp only [keyed.clauses, Clause.columnsAll_mapAll, List.map_map, List.mem_map,
      Function.comp_def, Change.column_map, mem_columnsOf_mentions sound]
    constructor
    · rintro (⟨slot, c, hc, rfl⟩ | ⟨change, hchange, rfl⟩ | ⟨c, hc, rfl⟩)
      · exact ⟨c, .inl ⟨slot, hc⟩, rfl⟩
      · exact ⟨change.column, .inr (.inl ⟨change, hchange, rfl⟩), rfl⟩
      · exact ⟨c, .inr (.inr hc), rfl⟩
    · rintro ⟨c, ⟨slot, hc⟩ | ⟨change, hchange, rfl⟩ | hc, rfl⟩
      · exact .inl ⟨slot, c, hc, rfl⟩
      · exact .inr (.inl ⟨change, hchange, rfl⟩)
      · exact .inr (.inr ⟨c, hc, rfl⟩)
  · -- both sides are the keys of the values that are mentioned
    rw [h.mem_keys_values numbered hselected, h.values, keyed.table, sentValues_ofMentions,
      OrderedMap.keys_mapValues, Placeholders.mem_keys_values_iff range, keyed.changes]
    simp only [keyed.clauses, Clause.valuesAll_mapAll, List.flatMap_map, List.mem_map,
      List.mem_flatMap, Change.value?_map, Option.mem_toList, Option.map_eq_some_iff,
      mem_valuesOf_mentions sound]
    constructor
    · rintro (⟨slot, v, hv, rfl⟩ | ⟨change, hchange, v, hv, rfl⟩)
      · exact ⟨v, .inl ⟨slot, hv⟩, rfl⟩
      · exact ⟨v, .inr ⟨change, hchange, hv⟩, rfl⟩
    · rintro ⟨v, ⟨slot, hv⟩ | ⟨change, hchange, hv⟩, rfl⟩
      · exact .inl ⟨slot, v, hv, rfl⟩
      · exact .inr ⟨change, hchange, v, hv, rfl⟩

end

end Request

/-! ## Batches of reads -/

namespace Wire.KeysAndAttributes

/-- The keys that occur in the expression of an entry. -/
def occurring (entry : KeysAndAttributes) (sigil : Char) : List String :=
  entry.projectionExpression.toList.flatMap (keysIn sigil)

/-- What occurs in an entry is what it declares, and is bound to columns, one after the other. -/
structure Closed (entry : KeysAndAttributes) (columns : List String) : Prop where
  names : ∀ key, key ∈ entry.occurring nameSigil ↔ key ∈ entry.expressionAttributeNames.keys
  values : entry.occurring valueSigil = []
  bound : (entry.occurring nameSigil).map entry.expressionAttributeNames.get? = columns.map some

end Wire.KeysAndAttributes

namespace Request

/-- The entry of a batch of reads. -/
def batchEntry (r : Request) (keys : List Item) : Wire.KeysAndAttributes where
  keys := keys.map Item.toAttributes
  projectionExpression := selection (r.selectedKeys [])
  expressionAttributeNames := r.selectedNames
  consistentRead := sentConsistency r.options.consistentRead

/-- A batch of reads sends its entry under the name of the table, and nothing else. -/
theorem prepare_batchGet {r : Request} {keys : List Item} {p : Prepared}
    (h : r.prepare (.batchGetItem keys) = .ok p) :
    p.parameters = { requestItems := some (.get ⟨[(r.tableName, r.batchEntry keys)]⟩) } := by
  rw [prepare_checked] at h
  obtain ⟨-, -, h⟩ := bind_eq_ok.1 h
  cases h
  have hprojection := projection_eq_selection r.conditions.placeholders r.options.columns
  show r.batchGetParameters keys = _
  unfold batchGetParameters
  simp only [hprojection]
  rfl

/-- Columns to return are declared in the entry under the keys that they have in the table. -/
theorem batchEntry_closed {r : Request} {steps : List Step}
    (range : InRange (mentions steps [] r.options.columns))
    (keyed : r.Keyed steps [] (mentions steps [] r.options.columns)) (keys : List Item) :
    (r.batchEntry keys).Closed r.options.columns := by
  have hmem (c : String) (hc : c ∈ r.options.columns) :
      c ∈ columnsOf (mentions steps [] r.options.columns) := by
    rw [mentions, Mention.columnsOf_append, Mention.columnsOf_map_column]
    exact List.mem_append_right _ hc
  -- a column that is selected more than once is declared more than once, under the same key
  have hnames : r.selectedNames = OrderedMap.ofList (r.options.columns.map fun c =>
      ((ofMentions (mentions steps [] r.options.columns)).nameOf c, c)) := by
    rw [List.map_prod_right_eq_zip, ← keyed.selected]
    rfl
  obtain ⟨hoccurring, hvalues⟩ :=
    selection_keys fun key => @Keyed.isKey_selected r steps [] range keyed key
  refine ⟨fun key => ?_, hvalues, ?_⟩
  · show key ∈ (selection (r.selectedKeys [])).toList.flatMap _ ↔ key ∈ r.selectedNames.keys
    rw [hoccurring, hnames, OrderedMap.mem_keys_ofList, keyed.selected, List.map_map]
    rfl
  · show ((selection (r.selectedKeys [])).toList.flatMap _).map r.selectedNames.get? = _
    rw [hoccurring, hnames, keyed.selected, List.map_map]
    refine List.map_congr_left fun c hc => OrderedMap.get?_ofList_of_agree ?_ ?_
    · -- a key stands for one column only
      intro e he hkey
      obtain ⟨d, hd, rfl⟩ := List.mem_map.1 he
      exact Placeholders.nameOf_inj range (hmem d hd) (hmem c hc) hkey
    · rw [List.map_map]
      exact List.mem_map_of_mem hc

/-- **Requests are closed.** Whatever is compiled from native steps declares exactly the keys that
occur in its expressions, whether for a command or for any calls on the update. A batch of reads
declares the columns to return in the entry of its table, and sends nothing beside that entry. -/
theorem requests_closed {config : Config} {table : String} {steps : List Step} {r : Request}
    (made : (config.table table).steps steps = .ok r)
    (native : steps.all Step.isNative = true) :
    (∀ operation item updates p, InRange (mentions steps updates r.options.columns) →
        r.compile operation item updates = .ok p → p.Closed)
      ∧ (∀ command p, InRange (mentions steps command.updates r.options.columns) →
        r.prepare command = .ok p → command.isBatch = false → p.parameters.Closed)
      ∧ ∀ keys p, InRange (mentions steps [] r.options.columns) →
        r.prepare (.batchGetItem keys) = .ok p →
          ∃ entry : Wire.KeysAndAttributes, entry.Closed r.options.columns
            ∧ p.parameters = { requestItems := some (.get ⟨[(r.tableName, entry)]⟩) } := by
  refine ⟨fun operation item updates p range h => ?_, fun command p range h single => ?_,
    fun keys p range h => ?_⟩
  · exact (compile_inv h).closed range (made_keyed made native range)
  · exact (prepare_compiled h single).closed range (made_keyed made native range)
  · exact ⟨r.batchEntry keys, batchEntry_closed range (made_keyed made native range) keys,
      prepare_batchGet h⟩

/-- A request with a column that is mentioned in a group, in another slot and among the columns to
return. -/
def forumSteps : List Step :=
  [.set (.select ["Views", "Subject", "Views"]),
    .add .filter
      [.compare .and "Tags" (.bare "attribute_exists"),
        .group .or [.between .and "Views" (.number "1") (.number "9") true]],
    .add .keyCondition [.compare .and "Forum" (.equals (.string "S3"))]]

theorem requests_closed_forum :
    ∃ r p, (Config.table {} "Thread").steps forumSteps = .ok r ∧ r.prepare .query = .ok p
      ∧ p.parameters.filterExpression
        = some "attribute_exists(#1) or (not (#2 between :1 and :2))"
      ∧ p.parameters.projectionExpression = some "#2, #4, #2"
      ∧ p.parameters.Closed :=
  ⟨_, _, rfl, rfl, rfl, rfl,
    (@requests_closed {} "Thread" forumSteps _ rfl (by decide)).2.1 .query _
      ⟨by decide, by decide⟩ rfl rfl⟩

end Request

end TableQuery
