import TableQuery.Proofs.Steps
import TableQuery.Proofs.Updates

/-!
# Compiling a request

Compiling declares what has not been declared yet, the columns to return, and then writes down the
conditions, the update and the table. `Request.compile` is that for a request and the calls on its
update.

* **`compile_inv`** — what the parameters of a compiled request are made of.
* **`prepare_eq`**, **`prepare_compiled`** — a command that is not a batch is prepared by checking
  its keys and then compiling, so it sends a compiled request.
* **`made_keyed`** — the state that a compilation starts from: everything is keyed by one table.
* **`final_table_reads_back`** — replacing every key by what that table binds it to gives back what
  the caller wrote.
-/

namespace TableQuery

open Mention (columnsOf valuesOf InRange)
open Placeholders (ofMentions)

namespace Request

/-! ## Compiling -/

/-- The changes that calls on the update record, and the table after them. -/
def record (r : Request) (updates : List Update.Call) : List KeyedChange × Placeholders :=
  Update.record r.conditions.placeholders updates

/-- The request whose table has what the calls on the update mention. -/
def recorded (r : Request) (updates : List Update.Call) : Request :=
  { r with conditions := { r.conditions with placeholders := (r.record updates).2 } }

def compile (r : Request) (operation : Operation) (item : Item) (updates : List Update.Call) :
    Except RequestError Wire.Parameters :=
  (r.recorded updates).parameters operation item (r.record updates).1

/-- The table when everything is declared: steps, updates and columns to return. -/
def finalTable (r : Request) (updates : List Update.Call) : Placeholders :=
  ((r.record updates).2.projection r.options.columns).2

/-- The keys of the columns to return. -/
def selectedKeys (r : Request) (updates : List Update.Call) : List String :=
  ((r.record updates).2.nameKeys r.options.columns).1

/-- Columns to return are told by their keys, if there are any. -/
def selection (keys : List String) : Option String :=
  if keys.isEmpty then none else some (", ".intercalate keys)

theorem projection_eq_selection (t : Placeholders) (columns : List String) :
    (t.projection columns).1 = selection (t.nameKeys columns).1 := by
  cases columns <;> rfl

/-- What a compiled request is made of: conditions and update are written against the final table,
and the final table is what is declared. -/
structure Compiled (r : Request) (updates : List Update.Call) (p : Wire.Parameters) : Prop where
  filter : Condition.expression (r.finalTable updates) r.conditions.filter
    = .ok p.filterExpression
  condition : Condition.expression (r.finalTable updates) r.conditions.condition
    = .ok p.conditionExpression
  keyCondition : Condition.expression (r.finalTable updates) r.conditions.keyCondition
    = .ok p.keyConditionExpression
  update : ∃ update, Update.expression (r.finalTable updates) (r.record updates).1 = .ok update
    ∧ p.updateExpression = update.map (·.1) ∧ p.returnValues = update.map (·.2)
  projection : p.projectionExpression = selection (r.selectedKeys updates)
  names : p.expressionAttributeNames = (r.finalTable updates).names
  values : p.expressionAttributeValues = (r.finalTable updates).sentValues

theorem compile_inv {r : Request} {operation : Operation} {item : Item}
    {updates : List Update.Call} {p : Wire.Parameters}
    (h : r.compile operation item updates = .ok p) : r.Compiled updates p := by
  obtain ⟨filter, hfilter, h⟩ := bind_eq_ok.1 h
  obtain ⟨condition, hcondition, h⟩ := bind_eq_ok.1 h
  obtain ⟨keyCondition, hkeyCondition, h⟩ := bind_eq_ok.1 h
  obtain ⟨update, hupdate, h⟩ := bind_eq_ok.1 h
  cases h
  exact ⟨hfilter, hcondition, hkeyCondition, ⟨update, hupdate, rfl, rfl⟩,
    projection_eq_selection _ _, rfl, rfl⟩

/-- Only conditions, columns and calls on the update matter to what a compiled request is. -/
theorem Compiled.of_eq {r r' : Request} {updates : List Update.Call} {p : Wire.Parameters}
    (h : r'.Compiled updates p) (hconditions : r'.conditions = r.conditions)
    (hcolumns : r'.options.columns = r.options.columns) : r.Compiled updates p := by
  have hrecord : r'.record updates = r.record updates := by
    unfold record
    rw [hconditions]
  have hfinal : r'.finalTable updates = r.finalTable updates := by
    unfold finalTable
    rw [hrecord, hcolumns]
  have hselected : r'.selectedKeys updates = r.selectedKeys updates := by
    unfold selectedKeys
    rw [hrecord, hcolumns]
  obtain ⟨filter, condition, keyCondition, update, projection, names, values⟩ := h
  rw [hfinal, hconditions] at filter condition keyCondition
  rw [hfinal, hrecord] at update
  rw [hselected] at projection
  rw [hfinal] at names values
  exact ⟨filter, condition, keyCondition, update, projection, names, values⟩

/-! ## Commands -/

end Request

namespace Command

/-- The calls that a command makes on the update. -/
def updates : Command → List Update.Call
  | .updateItem item => [.assign item]
  | .increment column amount extra => [.increment column amount, .assign extra]
  | .decrement column amount extra => [.decrement column amount, .assign extra]
  | _ => []

/-- The item that a command puts. -/
def item : Command → Item
  | .putItem item => item
  | _ => ∅

def isBatch : Command → Bool
  | .batchGetItem _ => true
  | .batchWriteItem _ => true
  | _ => false

end Command

namespace Request

/-- The operation that a command becomes. -/
def operationOf (r : Request) : Command → Operation
  | .getItem _ => .getItem
  | .putItem _ => .putItem
  | .deleteItem _ => .deleteItem
  | .updateItem _ => .updateItem
  | .increment .. => .updateItem
  | .decrement .. => .updateItem
  | .query => .query
  | .scan => .scan
  | .get => r.retrieval
  | .batchGetItem _ => .batchGetItem
  | .batchWriteItem _ => .batchWriteItem

/-- The request about the item that a command names by its key, if it names one. -/
def addressed (r : Request) : Command → Request
  | .getItem key => r.atKey key
  | .deleteItem key => r.atKey (some key)
  | _ => r

/-- The check of the keys that a command needs; batches check theirs on their own. -/
def checkKeys (r : Request) : Command → Except RequestError Unit
  | .getItem key => (r.atKey key).ensureKey .getItem (r.atKey key).options.key
  | .putItem item => r.ensureItem item
  | .deleteItem key => r.ensureKey .deleteItem key
  | .updateItem _ => r.ensureKey .updateItem r.options.key
  | .increment .. => r.ensureKey .updateItem r.options.key
  | .decrement .. => r.ensureKey .updateItem r.options.key
  | _ => .ok ()

/-- The changes of an item come after those that were recorded before. -/
theorem prepareUpdate_eq (r : Request) (calls : List Update.Call) (item : Item) :
    (r.recorded calls).prepareUpdate (r.record calls).1 item
      = (r.ensureKey .updateItem r.options.key >>= fun _ =>
          (r.compile .updateItem ∅ (calls ++ [.assign item])).map (Prepared.mk .updateItem)) := by
  -- one update is recorded from both, and no change is left for later
  unfold compile recorded record
  simp only [Update.record_append, Update.record, Update.Call.changes, List.append_nil]
  rfl

/-- **Preparing is checking the keys, then compiling**, for every command that is not a batch. -/
theorem prepare_eq (r : Request) {command : Command} (single : command.isBatch = false) :
    r.prepare command
      = (r.checkKeys command >>= fun _ =>
          ((r.addressed command).compile (r.operationOf command) command.item command.updates).map
            (Prepared.mk (r.operationOf command))) := by
  cases command with
  | getItem key => rfl
  | putItem item => rfl
  | deleteItem key => rfl
  | updateItem item => exact r.prepareUpdate_eq [] item
  | increment column amount extra => exact r.prepareUpdate_eq [.increment column amount] extra
  | decrement column amount extra => exact r.prepareUpdate_eq [.decrement column amount] extra
  | query => rfl
  | scan => rfl
  | get => rfl
  | batchGetItem keys => cases single
  | batchWriteItem requests => cases single

/-- Naming a key changes neither the conditions nor the columns to return. -/
theorem addressed_eq (r : Request) (command : Command) :
    (r.addressed command).conditions = r.conditions
      ∧ (r.addressed command).options.columns = r.options.columns := by
  cases command with
  | getItem key => cases key <;> exact ⟨rfl, rfl⟩
  | _ => exact ⟨rfl, rfl⟩

/-- **Every command that is not a batch** sends a compiled request. -/
theorem prepare_compiled {r : Request} {command : Command} {p : Prepared}
    (h : r.prepare command = .ok p) (single : command.isBatch = false) :
    r.Compiled command.updates p.parameters := by
  rw [prepare_eq r single] at h
  obtain ⟨-, -, h⟩ := bind_eq_ok.1 h
  obtain ⟨parameters, hparameters, rfl⟩ := map_eq_ok.1 h
  obtain ⟨hconditions, hcolumns⟩ := r.addressed_eq command
  exact (compile_inv hparameters).of_eq hconditions hcolumns

/-! ## Everything is keyed by one table -/

/-- What a request mentions from its first step to the columns to return. -/
def mentions (steps : List Step) (updates : List Update.Call) (columns : List String) :
    List Mention :=
  steps.flatMap Step.mentions ++ updates.flatMap Update.Call.mentions ++ columns.map .column

/-- The state that a compilation starts from, keyed by the table of all mentions. -/
structure Keyed (r : Request) (steps : List Step) (updates : List Update.Call)
    (final : List Mention) : Prop where
  table : r.finalTable updates = ofMentions final
  clauses : ∀ slot, r.conditions.clauses slot
    = Clause.mapAll (ofMentions final).nameOf (ofMentions final).valueOf
        (steps.flatMap (Step.direct slot))
  changes : (r.record updates).1
    = (updates.flatMap Update.Call.direct).map
        (Change.map (ofMentions final).nameOf (ofMentions final).valueOf)
  selected : r.selectedKeys updates = r.options.columns.map (ofMentions final).nameOf

variable {config : Config} {table : String} {steps : List Step} {updates : List Update.Call}
  {r : Request}

/-- Everything that is mentioned is declared in one table, from the first step on. -/
theorem finalTable_after (made : (config.table table).steps steps = .ok r) :
    r.finalTable updates
      = Placeholders.empty.after (mentions steps updates r.options.columns) := by
  rw [finalTable, Placeholders.projection_after, record, Update.record_after,
    steps_placeholders made, mentions, Placeholders.after_append, Placeholders.after_append]
  rfl

/-- **Everything is keyed by one table**, from the first step of a fresh request on. -/
theorem made_keyed (made : (config.table table).steps steps = .ok r)
    (native : steps.all Step.isNative = true)
    (range : InRange (mentions steps updates r.options.columns)) :
    r.Keyed steps updates (mentions steps updates r.options.columns) := by
  -- steps, calls on the update and columns to return come in this order
  have hselected : steps.flatMap Step.mentions ++ updates.flatMap Update.Call.mentions
      ++ r.options.columns.map .column <+: mentions steps updates r.options.columns :=
    List.prefix_refl _
  have hupdates : steps.flatMap Step.mentions ++ updates.flatMap Update.Call.mentions
      <+: mentions steps updates r.options.columns := List.prefix_append _ _
  have hsteps : [] ++ steps.flatMap Step.mentions
      <+: mentions steps updates r.options.columns := by
    rw [mentions, List.append_assoc]
    exact List.prefix_append _ _
  have hstart : (config.table table).conditions.placeholders = ofMentions [] := rfl
  have hnone (slot : Slot) : (config.table table).conditions.clauses slot = [] := by
    cases slot <;> rfl
  -- the table that each of them finds is that of all mentions before
  have hmade : r.conditions.placeholders = ofMentions (steps.flatMap Step.mentions) := by
    rw [steps_placeholders made]
    exact Placeholders.after_empty (range.of_prefix hsteps)
  have hrecorded : (r.record updates).2
      = ofMentions (steps.flatMap Step.mentions ++ updates.flatMap Update.Call.mentions) := by
    rw [record, Update.record_after, hmade,
      Placeholders.after_ofMentions (range.of_prefix hupdates)]
  refine ⟨?_, fun slot => ?_, ?_, ?_⟩
  · rw [finalTable, Placeholders.projection_after, hrecorded,
      Placeholders.after_ofMentions range]
    rfl
  · rw [steps_keyed range made native hstart hsteps slot, hnone slot, List.nil_append]
  · rw [record, hmade]
    exact Update.record_keyed range hupdates
  · rw [selectedKeys, hrecorded]
    exact Placeholders.nameKeys_ofMentions range hselected

theorem columns_subset_mentions {columns : List String} (slot : Slot) :
    Clause.columnsAll (steps.flatMap (Step.direct slot))
      ⊆ columnsOf (mentions steps updates columns) := by
  rw [mentions, List.append_assoc, Mention.columnsOf_append]
  exact List.subset_append_of_subset_left _ (Step.direct_subset slot steps).1

theorem values_subset_mentions {columns : List String} (slot : Slot) :
    Clause.valuesAll (steps.flatMap (Step.direct slot))
      ⊆ valuesOf (mentions steps updates columns) := by
  rw [mentions, List.append_assoc, Mention.valuesOf_append]
  exact List.subset_append_of_subset_left _ (Step.direct_subset slot steps).2

/-! ## Reading the keys back -/

/-- The values are sent under the keys that they have in the table. -/
theorem sentValues_ofMentions (ms : List Mention) :
    (ofMentions ms).sentValues = (ofMentions ms).values.mapValues Value.toAttribute := by
  have hdistinct := KeySupply.distinct_numbered valueSigil (valuesOf ms).eraseDups
  unfold Placeholders.sentValues
  rw [OrderedMap.ofList_of_nodup]
  · rfl
  · rw [List.map_map]
    exact hdistinct

/-- **Compilation preserves what the caller wrote.** Replacing every key in the clauses of the three
slots, in the changes of the update and among the columns to return by what the final table binds it
to gives what the steps and calls say of the columns and values themselves. That table is what a
compiled request declares, and what its expressions are written against. -/
theorem final_table_reads_back (made : (config.table table).steps steps = .ok r)
    (native : steps.all Step.isNative = true)
    (range : InRange (mentions steps updates r.options.columns)) :
    (∀ slot, Clause.mapAll (r.finalTable updates).names.get? (r.finalTable updates).values.get?
          (r.conditions.clauses slot)
        = Clause.mapAll some some (steps.flatMap (Step.direct slot)))
      ∧ (r.record updates).1.map
          (Change.map (r.finalTable updates).names.get? (r.finalTable updates).values.get?)
        = (updates.flatMap Update.Call.direct).map (Change.map some some)
      ∧ (r.selectedKeys updates).map (r.finalTable updates).names.get?
        = r.options.columns.map some
      ∧ ∀ operation item p, r.compile operation item updates = .ok p →
          r.Compiled updates p
            ∧ p.expressionAttributeValues
              = (r.finalTable updates).values.mapValues Value.toAttribute := by
  have keyed := made_keyed made native range
  have hname {c : String} (h : c ∈ columnsOf (mentions steps updates r.options.columns)) :=
    Placeholders.get?_nameOf range h
  have hvalue {v : Value} (h : v ∈ valuesOf (mentions steps updates r.options.columns)) :=
    Placeholders.get?_valueOf range h
  refine ⟨fun slot => ?_, ?_, ?_, fun operation item p h => ?_⟩
  · -- a key is looked up in the table that it was taken from
    rw [keyed.table, keyed.clauses, Clause.mapAll_mapAll]
    exact Clause.mapAll_congr _ ⟨fun c hc => hname (columns_subset_mentions slot hc),
      fun v hv => hvalue (values_subset_mentions slot hv)⟩
  · rw [keyed.table, keyed.changes, List.map_map]
    refine List.map_congr_left fun c hc => ?_
    have hcolumn : c.column ∈ columnsOf (mentions steps updates r.options.columns) := by
      rw [mentions, Mention.columnsOf_append, Mention.columnsOf_append,
        Update.columnsOf_flatMap_mentions]
      exact List.mem_append_left _ (List.mem_append_right _ (List.mem_map_of_mem hc))
    have hmember {v : Value} (hv : v ∈ c.value?) :
        v ∈ valuesOf (mentions steps updates r.options.columns) := by
      rw [mentions, Mention.valuesOf_append, Mention.valuesOf_append,
        Update.valuesOf_flatMap_mentions]
      exact List.mem_append_left _ (List.mem_append_right _
        (List.mem_flatMap.2 ⟨c, hc, Option.mem_toList.2 hv⟩))
    rw [Function.comp_apply, Change.map_map]
    exact Change.map_congr (hname hcolumn) fun v hv => hvalue (hmember hv)
  · rw [keyed.table, keyed.selected, List.map_map]
    refine List.map_congr_left fun c hc => hname ?_
    simp only [mentions, Mention.columnsOf_append, Mention.columnsOf_map_column]
    exact List.mem_append_right _ hc
  · have hcompiled := compile_inv h
    refine ⟨hcompiled, ?_⟩
    rw [hcompiled.values, keyed.table, sentValues_ofMentions]

/-- A request on all three slots, with a group in a group, a shorthand, a comparison by an operator, a
clause without an expression, and columns and values that are mentioned more than once. -/
def threadSteps : List Step :=
  [.add .keyCondition [.compare .and "ForumName" (.equals (.string "S3"))],
    .addNamed "orFilterBetween" (.range "Views" (.number "1") (.number "10")),
    .add .filter
      [.group .or
        [.compare .and "Tags" (.bare "attribute_exists"),
          .compare .or "Views" (.operator ">=" (.number "10")),
          .group .and [.membership .and "ForumName" [.string "S3", .number "1"] true]]],
    .set (.select ["Subject", "Views"]),
    .add .condition [.size .and "Subject" ">" (.number "1"), .compare .or "Tags" (.bare "<")]]

def threadUpdates : List Update.Call :=
  [.increment "Views" (.number "1"), .assign ⟨[("Tags", .null), ("Subject", .string "S3")]⟩]

/-- What the steps say of the filter, in columns and values. -/
def threadFilter : List (Clause String Value) :=
  [(.or, .between "Views" (.number "1") (.number "10") false),
    (.or, .nested
      [(.and, .function .attributeExists "Tags" none .equal),
        (.or, .basic "Views" .atLeast (.number "10")),
        (.and, .nested [(.and, .membership "ForumName" [.string "S3", .number "1"] true)])])]

theorem final_table_reads_back_thread :
    ∃ r, (Config.table {} "Thread").steps threadSteps = .ok r
      ∧ r.conditions.filter.length = 2
      ∧ Clause.mapAll (r.finalTable threadUpdates).names.get?
            (r.finalTable threadUpdates).values.get? r.conditions.filter
          = Clause.mapAll some some threadFilter
      ∧ ∀ slot, Clause.mapAll (r.finalTable threadUpdates).names.get?
            (r.finalTable threadUpdates).values.get? (r.conditions.clauses slot)
          = Clause.mapAll some some (threadSteps.flatMap (Step.direct slot)) := by
  have made : (Config.table {} "Thread").steps threadSteps = .ok _ := rfl
  obtain ⟨back, -⟩ := @final_table_reads_back {} "Thread" threadSteps threadUpdates _ made
    (by decide) ⟨by decide, by decide⟩
  exact ⟨_, made, rfl, back .filter, back⟩

end Request

end TableQuery
