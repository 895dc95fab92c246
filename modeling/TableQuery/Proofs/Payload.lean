import TableQuery.Proofs.KeyChecks
import TableQuery.Proofs.TypedForm

/-!
# Payloads

The payload of an operation tells which items it is about: an item to put, the key of one item, the
entries of a batch, or nothing where the store looks for the items. The item of a put and the entries
of a batch belong to their command, so no other operation carries them. A key may also have been set
as an option, and an option is not looked at again when the operation is known.

* **`payload_assemble`**, **`batch_assemble`** — what the payload of a command is made of.
* **`operationOf_cases`** — which commands have a use for a key.
* **`payloads_exact`** — each operation carries its own payload and no other, but for a put, a query
  or a scan of a request whose key was set, which carries that key too.
-/

namespace TableQuery

/-- The part of what is sent that tells which items an operation is about. -/
structure Payload where
  key : AttributeMap := ∅
  item : AttributeMap := ∅
  entries : Option Wire.RequestItems := none

def Wire.Parameters.payload (p : Wire.Parameters) : Payload where
  key := p.key
  item := p.item
  entries := p.requestItems

/-- How an operation comes to its items. -/
inductive Addressing where
  /-- By the key of one item. -/
  | keyed
  /-- Without a key: the item is sent, or the store looks for the items. -/
  | keyless
  /-- By the entries of a batch. -/
  | batch
  deriving DecidableEq

def Operation.addressing : Operation → Addressing
  | .getItem => .keyed
  | .putItem => .keyless
  | .deleteItem => .keyed
  | .updateItem => .keyed
  | .query => .keyless
  | .scan => .keyless
  | .batchGetItem => .batch
  | .batchWriteItem => .batch

/-- The key that a command names, if it names one. -/
def Command.key? : Command → Option Item
  | .getItem key => key
  | .deleteItem key => some key
  | _ => none

/-- What is empty is sent as what is empty, and nothing else is. -/
theorem Item.toAttributes_eq_empty {item : Item} : item.toAttributes = ∅ ↔ item = ∅ := by
  have hempty {α : Type} {m : OrderedMap α} : m = ∅ ↔ m.isEmpty = true := by
    obtain ⟨entries⟩ := m
    cases entries with
    | nil => exact ⟨fun _ => rfl, fun _ => rfl⟩
    | cons e rest => exact ⟨nofun, nofun⟩
  rw [hempty, hempty, Item.isEmpty_toAttributes]

namespace Prepared

/-- An operation carries its own payload, and that of no other. -/
def CarriesOwn (p : Prepared) (command : Command) : Prop :=
  match p.operation with
  | .putItem => p.parameters.payload = { item := command.item.toAttributes }
  | .getItem => ∃ key, key ≠ ∅ ∧ p.parameters.payload = { key }
  | .deleteItem => ∃ key, key ≠ ∅ ∧ p.parameters.payload = { key }
  | .updateItem => ∃ key, key ≠ ∅ ∧ p.parameters.payload = { key }
  | .query => p.parameters.payload = {}
  | .scan => p.parameters.payload = {}
  | .batchGetItem => ∃ entries, p.parameters = { requestItems := some entries }
  | .batchWriteItem => ∃ entries, p.parameters = { requestItems := some entries }

variable {p : Prepared} {command : Command} {key : Item}

theorem carriesOwn_keyed (keyed : p.operation.addressing = .keyed)
    (hp : p.parameters.payload = { key := key.toAttributes, item := command.item.toAttributes })
    (hitem : command.item = ∅) (hkey : key ≠ ∅) : p.CarriesOwn command := by
  have hempty := Item.toAttributes_eq_empty.2 hitem
  have hsent : ∃ key, key ≠ ∅ ∧ p.parameters.payload = { key } :=
    ⟨_, fun h => hkey (Item.toAttributes_eq_empty.1 h), hempty ▸ hp⟩
  obtain ⟨operation, parameters⟩ := p
  cases operation with
  | getItem => exact hsent
  | deleteItem => exact hsent
  | updateItem => exact hsent
  | _ => cases keyed

/-- Where there is no use for a key, there should be none. -/
theorem carriesOwn_keyless (keyless : p.operation.addressing = .keyless)
    (hp : p.parameters.payload = { key := key.toAttributes, item := command.item.toAttributes })
    (hitem : p.operation = .putItem ∨ command.item = ∅) : p.CarriesOwn command ↔ key = ∅ := by
  rw [← Item.toAttributes_eq_empty, CarriesOwn, hp]
  obtain ⟨operation, parameters⟩ := p
  cases operation with
  | putItem => simp
  | query => simp [hitem.resolve_left nofun, Item.toAttributes_eq_empty]
  | scan => simp [hitem.resolve_left nofun, Item.toAttributes_eq_empty]
  | _ => cases keyless

theorem carriesOwn_batch (batch : p.operation.addressing = .batch)
    (hp : ∃ entries, p.parameters = { requestItems := some entries }) : p.CarriesOwn command := by
  obtain ⟨operation, parameters⟩ := p
  cases operation with
  | batchGetItem => exact hp
  | batchWriteItem => exact hp
  | _ => cases batch

end Prepared

namespace Request

variable {r : Request} {command : Command}

/-! ## What is assembled -/

theorem compile_payload {operation : Operation} {item : Item} {updates : List Update.Call}
    {p : Wire.Parameters} (h : r.compile operation item updates = .ok p) :
    p.payload = { key := r.options.key.toAttributes, item := item.toAttributes } := by
  obtain ⟨filter, -, h⟩ := bind_eq_ok.1 h
  obtain ⟨condition, -, h⟩ := bind_eq_ok.1 h
  obtain ⟨keyCondition, -, h⟩ := bind_eq_ok.1 h
  obtain ⟨update, -, h⟩ := bind_eq_ok.1 h
  cases h
  rfl

theorem key_addressed : (r.addressed command).options.key = command.key?.getD r.options.key := by
  cases command with
  | getItem key => cases key <;> rfl
  | _ => rfl

/-- **The payload of a command** that is not a batch: the key that it names, or else the one that was
set, and the item that it puts. -/
theorem payload_assemble {p : Prepared} (h : r.assemble command = .ok p)
    (single : command.isBatch = false) :
    p.operation = r.operationOf command
      ∧ p.parameters.payload = { key := (command.key?.getD r.options.key).toAttributes
                                 item := command.item.toAttributes } := by
  have hcompile : r.assemble command = ((r.addressed command).compile (r.operationOf command)
      command.item command.updates).map (Prepared.mk (r.operationOf command)) := by
    cases command with
    | batchGetItem keys => cases single
    | batchWriteItem requests => cases single
    | _ => rfl
  rw [hcompile] at h
  obtain ⟨parameters, hparameters, rfl⟩ := map_eq_ok.1 h
  exact ⟨rfl, key_addressed ▸ compile_payload hparameters⟩

/-- A batch carries its entries, and nothing beside them. -/
theorem batch_assemble {p : Prepared} (h : r.assemble command = .ok p)
    (batch : command.isBatch = true) :
    p.operation = r.operationOf command
      ∧ ∃ entries, p.parameters = { requestItems := some entries } := by
  cases command with
  | batchGetItem keys =>
    cases h
    exact ⟨rfl, _, rfl⟩
  | batchWriteItem requests =>
    cases h
    exact ⟨rfl, _, rfl⟩
  | _ => cases batch

/-- **Which commands have a use for a key**: only a put has an item, and what has no use for a key
names none. -/
theorem operationOf_cases (r : Request) (command : Command) :
    ((r.operationOf command).addressing = .keyed ∧ command.isBatch = false ∧ command.item = ∅)
      ∨ ((r.operationOf command).addressing = .keyless ∧ command.isBatch = false
          ∧ command.key? = none ∧ (r.operationOf command = .putItem ∨ command.item = ∅))
      ∨ ((r.operationOf command).addressing = .batch ∧ command.isBatch = true) := by
  cases command with
  | getItem key => exact .inl ⟨rfl, rfl, rfl⟩
  | putItem item => exact .inr (.inl ⟨rfl, rfl, rfl, .inl rfl⟩)
  | deleteItem key => exact .inl ⟨rfl, rfl, rfl⟩
  | updateItem item => exact .inl ⟨rfl, rfl, rfl⟩
  | increment column amount extra => exact .inl ⟨rfl, rfl, rfl⟩
  | decrement column amount extra => exact .inl ⟨rfl, rfl, rfl⟩
  | query => exact .inr (.inl ⟨rfl, rfl, rfl, .inr rfl⟩)
  | scan => exact .inr (.inl ⟨rfl, rfl, rfl, .inr rfl⟩)
  | get =>
    -- a query or a scan, whichever is chosen, is addressed by no key
    refine .inr (.inl ⟨?_, rfl, rfl, .inr rfl⟩)
    rw [operationOf, retrieval]
    split <;> rfl
  | batchGetItem keys => exact .inr (.inr ⟨rfl, rfl⟩)
  | batchWriteItem requests => exact .inr (.inr ⟨rfl, rfl⟩)

/-- The key by which an operation comes to its item has been checked. -/
theorem Addresses.identifies (h : r.Addresses command)
    (keyed : (r.operationOf command).addressing = .keyed) :
    r.Identifies (command.key?.getD r.options.key) := by
  cases command with
  | getItem key => exact h
  | deleteItem key => exact h
  | updateItem item => exact h
  | increment column amount extra => exact h
  | decrement column amount extra => exact h
  | get =>
    rw [operationOf, retrieval] at keyed
    split at keyed <;> cases keyed
  | _ => cases keyed

/-! ## Whatever the steps -/

/-- What the payload of a command is, after some steps. -/
structure PayloadExact (steps : List Step) (command : Command) (p : Prepared) : Prop where
  /-- An operation on one table sends the key that its command names, or else the one that was set
  last, and the item that it puts. -/
  single : command.isBatch = false → p.parameters.payload
    = { key := (command.key?.getD (Step.lastKey steps)).toAttributes
        item := command.item.toAttributes }
  /-- A batch sends its entries, and nothing beside them. -/
  batch : command.isBatch = true → ∃ entries, p.parameters = { requestItems := some entries }
  /-- An operation on one item sends a key. -/
  keyed : p.operation.addressing = .keyed → p.parameters.key ≠ ∅
  /-- Each sends its own payload and no other, unless there is a key that it has no use for. -/
  own : p.CarriesOwn command ↔ (p.operation.addressing = .keyless → Step.lastKey steps = ∅)

/-- **Payloads are exact.** Whatever the steps, a put sends its item, an operation on one item sends a
key, a batch sends its entries, and none of them sends the item or the entries of another. The key
that was set last is sent with a put, a query and a scan as well, so these carry their own payload and
no other if and only if that key is empty. -/
theorem payloads_exact {config : Config} {table : String} {steps : List Step} {r : Request}
    (made : (config.table table).steps steps = .ok r) {command : Command} {p : Prepared}
    (h : r.prepare command = .ok p) : PayloadExact steps command p := by
  rw [prepare_checked] at h
  obtain ⟨_, hcheck, h⟩ := bind_eq_ok.1 h
  have addresses := check_eq_ok.1 hcheck
  have hkey := key_steps made
  -- a command is addressed by a key, by none, or by the entries of its batch
  obtain ⟨hkeyed, hsingle, hitem⟩ | ⟨hkeyless, hsingle, hnone, hitem⟩ | ⟨hbatched, hbatch⟩ :=
    r.operationOf_cases command
  · obtain ⟨hoperation, hpayload⟩ := payload_assemble h hsingle
    -- the key that was checked is not empty, so it is sent
    have hne : command.key?.getD r.options.key ≠ ∅ := fun hempty =>
      (addresses.identifies hkeyed).1 (congrArg OrderedMap.entries hempty)
    rw [hkey] at hpayload hne
    rw [← hoperation] at hkeyed
    have hown := Prepared.carriesOwn_keyed hkeyed hpayload hitem hne
    have hsent : p.parameters.key ≠ ∅ := fun hempty =>
      hne (Item.toAttributes_eq_empty.1 ((congrArg Payload.key hpayload).symm.trans hempty))
    exact ⟨fun _ => hpayload, by simp [hsingle], fun _ => hsent, by simp [hown, hkeyed]⟩
  · obtain ⟨hoperation, hpayload⟩ := payload_assemble h hsingle
    rw [hkey] at hpayload
    rw [← hoperation] at hkeyless hitem
    have hown := Prepared.carriesOwn_keyless hkeyless hpayload hitem
    rw [hnone, Option.getD_none] at hown
    exact ⟨fun _ => hpayload, by simp [hsingle], by simp [hkeyless], by simp [hown, hkeyless]⟩
  · obtain ⟨hoperation, hentries⟩ := batch_assemble h hbatch
    rw [← hoperation] at hbatched
    have hown : p.CarriesOwn command := Prepared.carriesOwn_batch hbatched hentries
    exact ⟨by simp [hbatch], fun _ => hentries, by simp [hbatched], by simp [hown, hbatched]⟩

/-- A key is set, and no operation that has a use for it follows. -/
def strayKeySteps : List Step := [.set (.key ⟨[("Id", .string "x")]⟩)]

theorem payloads_exact_stray_key :
    ∃ r p, (Config.table { dryRun := true } "T").steps strayKeySteps = .ok r
      ∧ r.prepare .query = .ok p
      ∧ PayloadExact strayKeySteps .query p
      ∧ p.parameters.key = ⟨[("Id", .s "x")]⟩ :=
  ⟨_, _, rfl, rfl, payloads_exact rfl rfl, rfl⟩

/-- Not every operation carries its own payload and no other. -/
theorem payload_not_own : ¬∀ (config : Config) (table : String) (steps : List Step) (r : Request)
    (command : Command) (p : Prepared), (config.table table).steps steps = .ok r →
      r.prepare command = .ok p → p.CarriesOwn command := by
  intro h
  have hquery := h { dryRun := true } "T" strayKeySteps _ .query _ rfl rfl
  -- the payload of a query would be empty
  have hkey := congrArg (fun payload => payload.key.isEmpty) hquery
  cases hkey

end Request

end TableQuery
