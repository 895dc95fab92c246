import TableQuery.Proofs.Compilation
import TableQuery.Request.Run

/-!
# Checks of keys

A command addresses items by their keys. A key that is empty, or that lacks a declared column,
would address the wrong item or none, and half of a batch could be done before the store notices.
So nothing is compiled or sent before all keys of a command are checked.

* **`check_eq_ok`** — the check passes exactly where the command addresses its items
  (`Request.Addresses`).
* **`check_eq_error`** — otherwise the error tells what is missing (`Request.Refused`).
* **`prepare_checked`** — preparing a command is this check and then assembling what is sent.
* **`keys_checked`** — the same for whatever steps a request was built by and whatever client it is
  run with.
-/

namespace TableQuery

/-! ## Complete items -/

/-- A column has a value that tells items apart: neither null nor the empty string. -/
def Item.Fills (item : Item) (column : String) : Prop :=
  ∃ v, item.get? column = some v ∧ v ≠ .null ∧ v ≠ .string ""

/-- All key columns have one. -/
def KeySchema.Complete (schema : KeySchema) (item : Item) : Prop :=
  ∀ column ∈ schema.columns, item.Fills column

namespace KeySchema

variable {schema : KeySchema} {item : Item} {column : String}

/-- A blank value is the null value or the empty string. -/
theorem isBlank_iff {v : Value} : v.isBlank = true ↔ v = .null ∨ v = .string "" := by
  cases v with
  | null => simp [Value.isBlank]
  | string s => simp [Value.isBlank]
  | _ => simp [Value.isBlank]

/-- A column is filled exactly where the check finds a value for it. -/
theorem fills_iff : item.Fills column ↔ (keyValue? item column).isSome = true := by
  unfold keyValue? Item.Fills
  cases item.get? column with
  | none => simp
  | some v =>
    -- the check takes no blank value, so what is filled and what is found differ in nothing else
    have hblank := isBlank_iff (v := v)
    cases hv : v.isBlank with
    | true =>
      rw [hv] at hblank
      have hnone : ¬(v ≠ .null ∧ v ≠ .string "") := fun h => (hblank.1 rfl).elim h.1 h.2
      simp [hv, hnone]
    | false =>
      rw [hv] at hblank
      have hsome : v ≠ .null ∧ v ≠ .string "" :=
        ⟨fun h => Bool.false_ne_true (hblank.2 (.inl h)),
          fun h => Bool.false_ne_true (hblank.2 (.inr h))⟩
      simp [hv, hsome]

instance : DecidablePred (Item.Fills item) := fun _ => decidable_of_iff _ fills_iff.symm

/-- The check reports the declared columns that are not filled, in the order of the declaration. -/
theorem missing_eq : schema.missing item = schema.columns.filter fun c => ¬item.Fills c := by
  refine List.filter_congr fun c _ => ?_
  rw [Bool.eq_iff_iff, decide_eq_true_iff, fills_iff]
  cases keyValue? item c <;> simp

theorem missing_eq_nil : schema.missing item = [] ↔ schema.Complete item := by
  rw [missing_eq, List.filter_eq_nil_iff]
  simp [Complete]

/-- The check of declared columns passes exactly for complete items. -/
theorem ensureKey_eq_ok : schema.ensureKey item = .ok () ↔ schema.Complete item := by
  rw [← missing_eq_nil]
  unfold ensureKey key
  cases schema.missing item with
  | nil => exact ⟨fun _ => rfl, fun _ => rfl⟩
  | cons c rest => exact ⟨nofun, nofun⟩

/-- Every missing column is told, the partition column first. -/
theorem ensureKey_eq_error {e : RequestError} :
    schema.ensureKey item = .error e ↔ ¬schema.Complete item
      ∧ e = .missingKey (.columns (schema.columns.filter fun c => ¬item.Fills c)) := by
  rw [← missing_eq_nil, ← missing_eq]
  unfold ensureKey key
  cases schema.missing item with
  | nil => exact ⟨nofun, fun h => absurd rfl h.1⟩
  | cons c rest =>
    constructor
    · intro h
      cases h
      exact ⟨nofun, rfl⟩
    · rintro ⟨-, rfl⟩
      rfl

end KeySchema

/-! ## Commands that address their items -/

namespace Request

variable (r : Request)

/-- The declared key columns are filled, if any are declared. -/
def Covers (item : Item) : Prop := ∀ schema ∈ r.options.keySchema, schema.Complete item

/-- The key is not empty, and fills the declared columns. -/
def Identifies (key : Item) : Prop := key.entries ≠ [] ∧ r.Covers key

def Admits : BatchWrite → Prop
  | .put item => r.Covers item
  | .delete key => r.Identifies key

/-- No slot has a clause. -/
def Unconditional : Prop := ∀ slot, r.conditions.clauses slot = []

/-- What a command needs. -/
def Addresses : Command → Prop
  | .getItem key => r.Identifies (key.getD r.options.key)
  | .putItem item => r.Covers item
  | .deleteItem key => r.Identifies key
  | .updateItem _ => r.Identifies r.options.key
  | .increment .. => r.Identifies r.options.key
  | .decrement .. => r.Identifies r.options.key
  | .query => True
  | .scan => True
  | .get => True
  | .batchGetItem keys => r.Unconditional ∧ keys ≠ [] ∧ ∀ key ∈ keys, r.Identifies key
  | .batchWriteItem requests =>
    r.Unconditional ∧ requests ≠ [] ∧ ∀ request ∈ requests, r.Admits request

/-! ## What is reported -/

/-- What is reported of an item that lacks key columns: all of them. -/
def Uncovered (item : Item) (e : RequestError) : Prop :=
  ∃ schema ∈ r.options.keySchema, ¬schema.Complete item
    ∧ e = .missingKey (.columns (schema.columns.filter fun c => ¬item.Fills c))

/-- What is reported of a key that identifies no item. -/
inductive Unidentified (operation : Operation) (key : Item) : RequestError → Prop where
  | empty (h : key.entries = []) : Unidentified operation key (.missingKey (.key operation r.table))
  | incomplete {e : RequestError} (h : key.entries ≠ []) (uncovered : r.Uncovered key e) :
    Unidentified operation key e

def Inadmissible : BatchWrite → RequestError → Prop
  | .put item, e => r.Uncovered item e
  | .delete key, e => r.Unidentified .batchWriteItem key e

/-- The first slot that has clauses. -/
structure FirstOccupied (slot : Slot) : Prop where
  occupied : r.conditions.clauses slot ≠ []
  first : ∃ before after, Slot.all = before ++ slot :: after
    ∧ ∀ other ∈ before, r.conditions.clauses other = []

/-- What is reported of a command that does not address its items. Batches are refused for their
clauses first, then for being empty, then for the first entry that addresses nothing. -/
inductive Refused : Command → RequestError → Prop where
  | getItem {key : Option Item} {e : RequestError}
      (h : r.Unidentified .getItem (key.getD r.options.key) e) : Refused (.getItem key) e
  | putItem {item : Item} {e : RequestError} (h : r.Uncovered item e) : Refused (.putItem item) e
  | deleteItem {key : Item} {e : RequestError} (h : r.Unidentified .deleteItem key e) :
    Refused (.deleteItem key) e
  | updateItem {item : Item} {e : RequestError} (h : r.Unidentified .updateItem r.options.key e) :
    Refused (.updateItem item) e
  | increment {column : String} {amount : Value} {extra : Item} {e : RequestError}
      (h : r.Unidentified .updateItem r.options.key e) : Refused (.increment column amount extra) e
  | decrement {column : String} {amount : Value} {extra : Item} {e : RequestError}
      (h : r.Unidentified .updateItem r.options.key e) : Refused (.decrement column amount extra) e
  | getClauses {keys : List Item} {slot : Slot} (h : r.FirstOccupied slot) :
    Refused (.batchGetItem keys)
      (.unsupportedPredicate slot.expressionName (.batchExpression .batchGetItem))
  | noKeys (free : r.Unconditional) :
    Refused (.batchGetItem []) (.missingKey (.batchKeys .batchGetItem r.table))
  | batchKey {before after : List Item} {key : Item} {e : RequestError} (free : r.Unconditional)
      (identified : ∀ k ∈ before, r.Identifies k) (h : r.Unidentified .batchGetItem key e) :
    Refused (.batchGetItem (before ++ key :: after)) e
  | writeClauses {requests : List BatchWrite} {slot : Slot} (h : r.FirstOccupied slot) :
    Refused (.batchWriteItem requests)
      (.unsupportedPredicate slot.expressionName (.batchExpression .batchWriteItem))
  | noRequests (free : r.Unconditional) :
    Refused (.batchWriteItem []) (.missingKey (.batchRequests .batchWriteItem r.table))
  | batchRequest {before after : List BatchWrite} {request : BatchWrite} {e : RequestError}
      (free : r.Unconditional) (admitted : ∀ w ∈ before, r.Admits w)
      (h : r.Inadmissible request e) : Refused (.batchWriteItem (before ++ request :: after)) e

/-! ## The checks of one item -/

variable {r} {item key : Item} {e : RequestError}

/-- An item passes exactly if it fills the declared columns; any item does if none are declared. -/
theorem ensureItem_eq_ok : r.ensureItem item = .ok () ↔ r.Covers item := by
  unfold ensureItem Covers
  cases r.options.keySchema with
  | none => simp
  | some schema => simp [KeySchema.ensureKey_eq_ok]

/-- An item is refused exactly for the columns that it lacks. -/
theorem ensureItem_eq_error : r.ensureItem item = .error e ↔ r.Uncovered item e := by
  unfold ensureItem Uncovered
  cases r.options.keySchema with
  | none => simp
  | some schema => simp [KeySchema.ensureKey_eq_error]

theorem isEmpty_iff : key.isEmpty = true ↔ key.entries = [] := List.isEmpty_iff

/-- A key passes exactly if it is not empty and fills the declared columns. -/
theorem ensureKey_eq_ok {operation : Operation} :
    r.ensureKey operation key = .ok () ↔ r.Identifies key := by
  unfold ensureKey Identifies
  split
  · rename_i hempty
    exact ⟨nofun, fun h => absurd (isEmpty_iff.1 hempty) h.1⟩
  · rename_i hne
    rw [ensureItem_eq_ok]
    exact ⟨fun h => ⟨fun hnil => hne (isEmpty_iff.2 hnil), h⟩, fun h => h.2⟩

/-- A key is refused for being empty, before its columns are looked at, or for the columns that it
lacks. -/
theorem ensureKey_eq_error {operation : Operation} :
    r.ensureKey operation key = .error e ↔ r.Unidentified operation key e := by
  unfold ensureKey
  split
  · -- an empty key is not looked at any further
    rename_i hempty
    constructor
    · intro h
      cases h
      exact .empty (isEmpty_iff.1 hempty)
    · rintro (_ | ⟨hne, -⟩)
      · rfl
      · exact absurd (isEmpty_iff.1 hempty) hne
  · rename_i hne
    rw [ensureItem_eq_error]
    constructor
    · exact .incomplete fun hnil => hne (isEmpty_iff.2 hnil)
    · rintro (hnil | ⟨-, h⟩)
      · exact absurd (isEmpty_iff.2 hnil) hne
      · exact h

/-- A write of a batch passes under the same conditions as the item or the key that it holds. -/
theorem ensureWrite_eq_ok {request : BatchWrite} :
    r.ensureWrite request = .ok () ↔ r.Admits request := by
  cases request with
  | put item => exact ensureItem_eq_ok
  | delete key => exact ensureKey_eq_ok

/-- A write of a batch is refused as the item or the key that it holds. -/
theorem ensureWrite_eq_error {request : BatchWrite} :
    r.ensureWrite request = .error e ↔ r.Inadmissible request e := by
  cases request with
  | put item => exact ensureItem_eq_error
  | delete key => exact ensureKey_eq_error

/-! ## The checks of a batch -/

/-- The keys of a batch are checked one after the other, up to the first that fails. -/
theorem ensureKeys_eq (operation : Operation) (keys : List Item) :
    r.ensureKeys operation keys = forM keys (r.ensureKey operation) := by
  induction keys with
  | nil => rfl
  | cons key rest ih => rw [ensureKeys, List.forM_cons, ih]

/-- The writes of a batch are checked one after the other, up to the first that fails. -/
theorem ensureWrites_eq (requests : List BatchWrite) :
    r.ensureWrites requests = forM requests r.ensureWrite := by
  induction requests with
  | nil => rfl
  | cons request rest ih => rw [ensureWrites, List.forM_cons, ih]

/-- No slot is found exactly where no slot has a clause. -/
theorem occupied?_eq_none : r.conditions.occupied? = none ↔ r.Unconditional := by
  unfold Conditions.occupied? Unconditional
  rw [List.find?_eq_none]
  constructor
  · intro h slot
    -- every slot is searched
    have hslot : slot ∈ Slot.all := by cases slot <;> decide
    simpa using h slot hslot
  · intro h slot _
    simp [h slot]

/-- The slot that is found is the first one with a clause. -/
theorem occupied?_eq_some {slot : Slot} :
    r.conditions.occupied? = some slot ↔ r.FirstOccupied slot := by
  unfold Conditions.occupied?
  rw [List.find?_eq_some_iff_append]
  constructor
  · rintro ⟨hslot, before, after, hall, hbefore⟩
    exact ⟨by simpa using hslot, before, after, hall, fun other h => by simpa using hbefore other h⟩
  · rintro ⟨hslot, before, after, hall, hbefore⟩
    exact ⟨by simpa using hslot, before, after, hall, fun other h => by simp [hbefore other h]⟩

/-- A batch passes this check exactly if no slot has a clause. -/
theorem ensureNoClauses_eq_ok {operation : Operation} :
    r.ensureNoClauses operation = .ok () ↔ r.Unconditional := by
  rw [← occupied?_eq_none]
  unfold ensureNoClauses
  cases r.conditions.occupied? with
  | none => exact ⟨fun _ => rfl, fun _ => rfl⟩
  | some slot => exact ⟨nofun, nofun⟩

/-- A batch with clauses is refused for the first slot that has some, by the name of its expression.
-/
theorem ensureNoClauses_eq_error {operation : Operation} :
    r.ensureNoClauses operation = .error e ↔ ∃ slot, r.FirstOccupied slot
      ∧ e = .unsupportedPredicate slot.expressionName (.batchExpression operation) := by
  simp only [← occupied?_eq_some]
  unfold ensureNoClauses
  cases r.conditions.occupied? with
  | none => simp
  | some slot => simp [eq_comm]

/-- What is checked of a batch: its clauses, whether it has entries, and the entries in order. -/
def checkBatch {α : Type} (r : Request) (operation : Operation) (lack : MissingKey)
    (entries : List α) (checkEntry : α → Except RequestError Unit) : Except RequestError Unit := do
  r.ensureNoClauses operation
  if entries.isEmpty then .error (.missingKey lack)
  forM entries checkEntry

section

variable {α : Type} {operation : Operation} {lack : MissingKey} {entries : List α}
  {checkEntry : α → Except RequestError Unit}

/-- A batch passes if it has no clauses, has entries, and every entry passes. -/
theorem checkBatch_eq_ok :
    r.checkBatch operation lack entries checkEntry = .ok ()
      ↔ r.Unconditional ∧ entries ≠ [] ∧ ∀ a ∈ entries, checkEntry a = .ok () := by
  have free : r.ensureNoClauses operation = .ok () ↔ r.Unconditional := ensureNoClauses_eq_ok
  rw [← free, ← forM_eq_ok]
  unfold checkBatch
  cases r.ensureNoClauses operation with
  | error e => exact ⟨nofun, fun h => nomatch h.1⟩
  | ok _ =>
    cases entries with
    | nil => exact ⟨nofun, fun h => absurd rfl h.2.1⟩
    | cons a rest => exact ⟨fun h => ⟨rfl, nofun, h⟩, fun h => h.2.2⟩

/-- What a batch is refused for, in this order: its first slot with clauses, that it has no entries,
and its first entry that fails. -/
theorem checkBatch_eq_error :
    r.checkBatch operation lack entries checkEntry = .error e
      ↔ (∃ slot, r.FirstOccupied slot
            ∧ e = .unsupportedPredicate slot.expressionName (.batchExpression operation))
        ∨ (r.Unconditional ∧ entries = [] ∧ e = .missingKey lack)
        ∨ (r.Unconditional ∧ ∃ before a after, entries = before ++ a :: after
            ∧ (∀ b ∈ before, checkEntry b = .ok ()) ∧ checkEntry a = .error e) := by
  have free : r.ensureNoClauses operation = .ok () ↔ r.Unconditional := ensureNoClauses_eq_ok
  rw [← ensureNoClauses_eq_error, ← free, ← forM_eq_error]
  unfold checkBatch
  cases r.ensureNoClauses operation with
  -- refused for its clauses: nothing else is looked at
  | error e' => exact ⟨.inl, fun h => h.elim id fun h => h.elim nofun nofun⟩
  | ok _ =>
    cases entries with
    | nil =>
      constructor
      · intro h
        cases h
        exact .inr (.inl ⟨rfl, rfl, rfl⟩)
      · rintro (h | ⟨-, -, rfl⟩ | ⟨-, h⟩)
        · cases h
        · rfl
        · cases h
    | cons a rest =>
      -- refused for an entry, or not at all
      constructor
      · exact fun h => .inr (.inr ⟨rfl, h⟩)
      · rintro (h | ⟨-, h, -⟩ | ⟨-, h⟩)
        · cases h
        · cases h
        · exact h

end

/-! ## The check of a command -/

/-- All that is checked before a command is assembled. -/
def check (r : Request) : Command → Except RequestError Unit
  | .batchGetItem keys => r.checkBatch .batchGetItem (.batchKeys .batchGetItem r.table) keys
      (r.ensureKey .batchGetItem)
  | .batchWriteItem requests => r.checkBatch .batchWriteItem
      (.batchRequests .batchWriteItem r.table) requests r.ensureWrite
  | command => r.checkKeys command

/-- What is sent for a command that has been checked. -/
def assemble (r : Request) : Command → Except RequestError Prepared
  | .batchGetItem keys => .ok ⟨.batchGetItem, r.batchGetParameters keys⟩
  | .batchWriteItem requests => .ok ⟨.batchWriteItem, r.batchWriteParameters requests⟩
  | command => ((r.addressed command).compile (r.operationOf command) command.item
      command.updates).map (Prepared.mk (r.operationOf command))

/-- **Preparing is checking, then assembling**, for every command. -/
theorem prepare_checked (r : Request) (command : Command) :
    r.prepare command = (r.check command >>= fun _ => r.assemble command) := by
  cases command with
  | batchGetItem keys =>
    rw [prepare, check, checkBatch, ensureKeys_eq]
    cases r.ensureNoClauses .batchGetItem with
    | error e => rfl
    | ok _ => cases keys <;> rfl
  | batchWriteItem requests =>
    rw [prepare, check, checkBatch, ensureWrites_eq]
    cases r.ensureNoClauses .batchWriteItem with
    | error e => rfl
    | ok _ => cases requests <;> rfl
  | _ => exact r.prepare_eq rfl

/-- The key of a get is the one given, else the one set before. -/
theorem check_getItem (key : Option Item) :
    r.check (.getItem key) = r.ensureKey .getItem (key.getD r.options.key) := by
  cases key <;> rfl

/-- **The check passes** exactly where a command addresses its items. -/
theorem check_eq_ok {command : Command} : r.check command = .ok () ↔ r.Addresses command := by
  cases command with
  | getItem key =>
    rw [check_getItem]
    exact ensureKey_eq_ok
  | putItem item => exact ensureItem_eq_ok
  | deleteItem key => exact ensureKey_eq_ok
  | updateItem item => exact ensureKey_eq_ok
  | increment column amount extra => exact ensureKey_eq_ok
  | decrement column amount extra => exact ensureKey_eq_ok
  | query => exact ⟨fun _ => trivial, fun _ => rfl⟩
  | scan => exact ⟨fun _ => trivial, fun _ => rfl⟩
  | get => exact ⟨fun _ => trivial, fun _ => rfl⟩
  | batchGetItem keys =>
    refine checkBatch_eq_ok.trans ?_
    simp only [ensureKey_eq_ok]
    rfl
  | batchWriteItem requests =>
    refine checkBatch_eq_ok.trans ?_
    simp only [ensureWrite_eq_ok]
    rfl

/-- **Otherwise it reports** what is missing. -/
theorem check_eq_error {command : Command} : r.check command = .error e ↔ r.Refused command e := by
  cases command with
  | getItem key =>
    rw [check_getItem, ensureKey_eq_error]
    exact ⟨.getItem, fun | .getItem h => h⟩
  | putItem item => exact ensureItem_eq_error.trans ⟨.putItem, fun | .putItem h => h⟩
  | deleteItem key => exact ensureKey_eq_error.trans ⟨.deleteItem, fun | .deleteItem h => h⟩
  | updateItem item => exact ensureKey_eq_error.trans ⟨.updateItem, fun | .updateItem h => h⟩
  | increment column amount extra =>
    exact ensureKey_eq_error.trans ⟨.increment, fun | .increment h => h⟩
  | decrement column amount extra =>
    exact ensureKey_eq_error.trans ⟨.decrement, fun | .decrement h => h⟩
  | query => exact ⟨nofun, nofun⟩
  | scan => exact ⟨nofun, nofun⟩
  | get => exact ⟨nofun, nofun⟩
  | batchGetItem keys =>
    -- a batch is refused for a clause, for being empty, or for its first bad entry
    refine checkBatch_eq_error.trans ?_
    simp only [ensureKey_eq_ok, ensureKey_eq_error]
    constructor
    · rintro (⟨slot, h, rfl⟩ | ⟨free, rfl, rfl⟩ | ⟨free, before, key, after, rfl, hbefore, h⟩)
      · exact .getClauses h
      · exact .noKeys free
      · exact .batchKey free hbefore h
    · intro h
      cases h with
      | getClauses h => exact .inl ⟨_, h, rfl⟩
      | noKeys free => exact .inr (.inl ⟨free, rfl, rfl⟩)
      | batchKey free hbefore h => exact .inr (.inr ⟨free, _, _, _, rfl, hbefore, h⟩)
  | batchWriteItem requests =>
    refine checkBatch_eq_error.trans ?_
    simp only [ensureWrite_eq_ok, ensureWrite_eq_error]
    constructor
    · rintro (⟨slot, h, rfl⟩ | ⟨free, rfl, rfl⟩ | ⟨free, before, key, after, rfl, hbefore, h⟩)
      · exact .writeClauses h
      · exact .noRequests free
      · exact .batchRequest free hbefore h
    · intro h
      cases h with
      | writeClauses h => exact .inl ⟨_, h, rfl⟩
      | noRequests free => exact .inr (.inl ⟨free, rfl, rfl⟩)
      | batchRequest free hbefore h => exact .inr (.inr ⟨free, _, _, _, rfl, hbefore, h⟩)

end Request

/-! ## Whatever the steps -/

def Setting.key? : Setting → Option Item
  | .key item => some item
  | _ => none

def Setting.keySchema? : Setting → Option KeySchema
  | .withKeys schema => some schema
  | _ => none

namespace Step

/-- The key that was set last; empty if none was. -/
def lastKey (steps : List Step) : Item :=
  (steps.reverse.findSome? fun s => s.setting?.bind Setting.key?).getD ∅

/-- The key columns that were declared last, if any were. -/
def lastSchema (steps : List Step) : Option KeySchema :=
  steps.reverse.findSome? fun s => s.setting?.bind Setting.keySchema?

end Step

namespace Request

section

variable {config : Config} {table : String} {steps : List Step} {r : Request}

/-- The key of a request is the one that was set last. -/
theorem key_steps (made : (config.table table).steps steps = .ok r) :
    r.options.key = Step.lastKey steps := by
  have hset : ∀ (o : Options) setting, (o.set setting).key = (Setting.key? setting).getD o.key := by
    intro o setting
    cases setting <;> rfl
  exact option_steps hset made

/-- The key columns of a request are those that were declared last. -/
theorem keySchema_steps (made : (config.table table).steps steps = .ok r) :
    r.options.keySchema = Step.lastSchema steps := by
  have hset : ∀ (o : Options) setting,
      (o.set setting).keySchema = ((Setting.keySchema? setting).map some).getD o.keySchema := by
    intro o setting
    cases setting <;> rfl
  -- an option is set to a schema, never back to none, so the last declaration that there is decides
  have hmap : (fun s : Step => s.setting?.bind fun x => (Setting.keySchema? x).map some)
      = Option.map some ∘ fun s : Step => s.setting?.bind Setting.keySchema? := by
    funext s
    exact (Option.map_bind ..).symm
  rw [option_steps hset made, hmap, ← List.map_findSome?, Step.lastSchema]
  cases steps.reverse.findSome? fun s => s.setting?.bind Setting.keySchema? <;> rfl

end

/-- What the check of its keys does to a command. -/
structure KeyChecked (r : Request) (command : Command) : Prop where
  /-- What is shown or sent addresses its items, -/
  prepared : ∀ p, r.prepare command = .ok p → r.Addresses command
  /-- and the client is called only for that. -/
  sent : ∀ (σ : Type) (client : Client σ) (log : List (Operation × Wire.Parameters)) (s : σ),
    (r.run client.recorded command (log, s)).2.1 ≠ log → r.Addresses command
  /-- Everything else is refused, -/
  refused : ¬r.Addresses command → ∃ e, r.Refused command e
  /-- with this error, and without a call. -/
  reported : ∀ e, r.Refused command e → ∀ (σ : Type) (client : Client σ) (s : σ),
    r.run client command s = (.error e, s)
  /-- What addresses its items passes the check. -/
  passed : r.Addresses command → r.prepare command = r.assemble command

/-- Every request passes or fails by what the command addresses, whatever its options are. The parts
about a client follow from those about the check, since a run prepares its command first. -/
theorem keyChecked (r : Request) (command : Command) : r.KeyChecked command := by
  have hprepare := r.prepare_checked command
  have refused (h : ¬r.Addresses command) : ∃ e, r.Refused command e := by
    cases hcheck : r.check command with
    | error e => exact ⟨e, check_eq_error.1 hcheck⟩
    | ok _ => exact absurd (check_eq_ok.1 hcheck) h
  have reported (e : RequestError) (h : r.Refused command e) (σ : Type) (client : Client σ)
      (s : σ) : r.run client command s = (.error e, s) := by
    rw [check_eq_error.2 h] at hprepare
    rw [run, hprepare]
    rfl
  refine ⟨fun p h => ?_, fun σ client log s hcalled => ?_, refused, reported, fun h => ?_⟩
  · -- a command that is prepared has passed the check
    rw [hprepare] at h
    obtain ⟨_, hcheck, -⟩ := bind_eq_ok.1 h
    exact check_eq_ok.1 hcheck
  · -- a refused run leaves the record of calls as it was, so it has called nothing
    by_contra h
    obtain ⟨e, he⟩ := refused h
    rw [reported e he] at hcalled
    exact hcalled rfl
  · rw [check_eq_ok.2 h] at hprepare
    exact hprepare

/-- **No incomplete key leaves a request.** Whatever the steps, the key is the one that was set last
and the key columns are those that were declared last, in whatever order. A command is shown or sent
only if it addresses its items. Otherwise it is refused without a call, and the error tells what is
missing, even where a clause has no expression either; of batches it tells the first slot that has
clauses, if there is any. -/
theorem keys_checked {config : Config} {table : String} {steps : List Step} {r : Request}
    (made : (config.table table).steps steps = .ok r) :
    r.options.key = Step.lastKey steps ∧ r.options.keySchema = Step.lastSchema steps
      ∧ r.table = table ∧ ∀ command, r.KeyChecked command :=
  ⟨key_steps made, keySchema_steps made, (options_steps made).2, r.keyChecked⟩

/-- The key was set before its columns were declared, and its subject is empty. -/
def halfKeySteps : List Step :=
  [.set (.key ⟨[("ForumName", .string "S3"), ("Subject", .string "")]⟩),
    .add .filter [.compare .and "Views" (.bare "<")],
    .set (.withKeys { partition := "ForumName", sort := some "Subject" })]

/-- The subject is empty, so a get is refused for that column only; a batch is refused for its
filter before it is found to have no entries, and the filter is one whose operator misses its
operand. -/
theorem keys_checked_half_key :
    ∃ r, (Config.table {} "Thread").steps halfKeySteps = .ok r
      ∧ (∀ command, r.KeyChecked command)
      ∧ Refused r (.getItem none) (.missingKey (.columns ["Subject"]))
      ∧ Refused r (.batchWriteItem []) (.unsupportedPredicate "FilterExpression"
          (.batchExpression .batchWriteItem)) := by
  have made : (Config.table {} "Thread").steps halfKeySteps = .ok _ := rfl
  obtain ⟨-, -, -, checked⟩ := keys_checked made
  exact ⟨_, made, checked, check_eq_error.1 rfl, check_eq_error.1 rfl⟩

end Request

end TableQuery
