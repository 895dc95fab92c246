import TableQuery.Proofs.Interleaving
import TableQuery.Request.Fluent

/-!
# Shorthands

A shorthand names a method: its name is put together from the connector, the slot and the kind of
arguments, and it does what the method of that name does. Every other name is unknown, and so is
every name with arguments of another kind. What is unknown does nothing: it is refused before any
handle of the request is used, so that nobody who shares its table sees a difference.

* **`name_of_mem`**, **`named_spelled`**, **`named_eq_error`** — the table of shorthands has exactly
  the names that are put together in this way.
* **`Builder.read_afterCall`**, **`seen_afterCall`**, **`unseen_afterCall`** — what a call does
  through the handle of a slot.
* **`Builder.run_addNamed`** — a shorthand is checked before a handle is used.
* **`shorthands_are_methods`** — a shorthand does what its method does, or nothing at all.
-/

namespace TableQuery

/-! ## Names -/

namespace Shorthand

def slotWord : Slot → String
  | .filter => "filter"
  | .condition => "condition"
  | .keyCondition => "keyCondition"

/-- The word for a slot that follows another word. -/
def innerSlotWord : Slot → String
  | .filter => "Filter"
  | .condition => "Condition"
  | .keyCondition => "KeyCondition"

def Shape.word : Shape → String
  | .comparison => ""
  | .membership => "In"
  | .range => "Between"

/-- The name of the shorthand for a slot, a connector and a kind of arguments. -/
def spelled (slot : Slot) (connector : Connector) (shape : Shape) : String :=
  match connector with
  | .and => slotWord slot ++ shape.word
  | .or => "or" ++ innerSlotWord slot ++ shape.word

/-- Under each spelling stands the shorthand of that slot, that connector and that kind of
arguments. -/
theorem named_spelled (slot : Slot) (connector : Connector) (shape : Shape) :
    named (spelled slot connector shape)
      = .ok ⟨spelled slot connector shape, slot, connector, shape⟩ := by
  cases slot <;> cases connector <;> cases shape <;> rfl

/-- Every shorthand has the name that is put together for it. -/
theorem name_of_mem : ∀ s ∈ all, s.name = spelled s.slot s.connector s.shape := by decide

/-- **No other name** is known. -/
theorem named_eq_error {name : String}
    (unknown : ∀ slot connector shape, name ≠ spelled slot connector shape) :
    named name = .error (.undefinedMethod name) := by
  have hnone : all.find? (·.name == name) = none := by
    rw [List.find?_eq_none]
    intro s hs heq
    exact unknown s.slot s.connector s.shape ((beq_iff_eq.1 heq).symm.trans (name_of_mem s hs))
  rw [named, hnone]

/-- A shorthand with arguments of its kind makes the call of its connector. -/
theorem call_of_shape {s : Shorthand} {arguments : Arguments} (h : arguments.shape = s.shape) :
    s.call arguments = .ok (arguments.call s.connector) := if_pos h

/-- With arguments of another kind it is unknown, by its name with this kind behind it. -/
theorem call_of_other_shape {s : Shorthand} {arguments : Arguments}
    (h : arguments.shape ≠ s.shape) :
    s.call arguments
      = .error (.undefinedMethod (s.name ++ "(" ++ arguments.shape.text ++ " arguments)")) :=
  if_neg h

/-- What is reported of a name that is unknown, or unknown with these arguments. -/
inductive Undefined (name : String) (arguments : Arguments) : String → Prop where
  | name (unknown : ∀ slot connector shape, name ≠ spelled slot connector shape) :
    Undefined name arguments name
  | shape {slot : Slot} {connector : Connector} {shape : Shape}
      (known : name = spelled slot connector shape) (other : arguments.shape ≠ shape) :
    Undefined name arguments (name ++ "(" ++ arguments.shape.text ++ " arguments)")

end Shorthand

open Shorthand (spelled Undefined)

/-! ## Methods -/

namespace Request

/-- The method for a slot, a connector and arguments. -/
def method (r : Request) : Slot → Connector → Shorthand.Arguments → Request
  | .filter, .and, .comparison column operand => r.filter column operand
  | .filter, .and, .membership column values => r.filterIn column values
  | .filter, .and, .range column low high => r.filterBetween column low high
  | .filter, .or, .comparison column operand => r.orFilter column operand
  | .filter, .or, .membership column values => r.orFilterIn column values
  | .filter, .or, .range column low high => r.orFilterBetween column low high
  | .condition, .and, .comparison column operand => r.condition column operand
  | .condition, .and, .membership column values => r.conditionIn column values
  | .condition, .and, .range column low high => r.conditionBetween column low high
  | .condition, .or, .comparison column operand => r.orCondition column operand
  | .condition, .or, .membership column values => r.orConditionIn column values
  | .condition, .or, .range column low high => r.orConditionBetween column low high
  | .keyCondition, .and, .comparison column operand => r.keyCondition column operand
  | .keyCondition, .and, .membership column values => r.keyConditionIn column values
  | .keyCondition, .and, .range column low high => r.keyConditionBetween column low high
  | .keyCondition, .or, .comparison column operand => r.orKeyCondition column operand
  | .keyCondition, .or, .membership column values => r.orKeyConditionIn column values
  | .keyCondition, .or, .range column low high => r.orKeyConditionBetween column low high

/-- Every method adds one call to its slot. -/
theorem method_eq_add (r : Request) (slot : Slot) (connector : Connector)
    (arguments : Shorthand.Arguments) :
    r.method slot connector arguments = r.add slot [arguments.call connector] := by
  cases slot <;> cases connector <;> cases arguments <;> rfl

/-- A shorthand does what the method for its slot, its connector and its arguments does. -/
theorem addNamed_spelled (r : Request) (slot : Slot) (connector : Connector)
    (arguments : Shorthand.Arguments) :
    r.addNamed (spelled slot connector arguments.shape) arguments
      = .ok (r.method slot connector arguments) := by
  rw [addNamed, Shorthand.named_spelled, ok_bind, Shorthand.call_of_shape rfl, ok_bind,
    method_eq_add]
  rfl

/-- What is unknown changes no request, and is reported by its name. -/
theorem addNamed_undefined (r : Request) {name method : String} {arguments : Shorthand.Arguments}
    (h : Undefined name arguments method) :
    r.addNamed name arguments = .error (.undefinedMethod method) := by
  cases h with
  | name unknown =>
    rw [addNamed, Shorthand.named_eq_error unknown]
    rfl
  | shape known other =>
    -- the name is known, and the arguments are looked at next
    subst known
    rw [addNamed, Shorthand.named_spelled, ok_bind, Shorthand.call_of_other_shape other]
    rfl

end Request

/-! ## Calls through handles -/

namespace Builder

/-- Makes a call on a slot. What it mentions is declared through the handle of the slot. -/
def makeCall (slot : Slot) (call : Call) : StateM (Builder × SharedTables) Unit :=
  modify fun (b, tables) =>
    let (clauses, tables) := tables.update (b.handle slot) fun t => call.clauses t
    let request := b.request.map fun r =>
      { r with conditions := r.conditions.append slot clauses }
    ({ b with request }, tables)

/-- Adds a clause by the name of a shorthand. What has been done to the slots and to the tables stays
done where a later check fails. -/
def addNamed (name : String) (arguments : Shorthand.Arguments) :
    ExceptT RequestError (StateM (Builder × SharedTables)) Unit := do
  let shorthand ← Shorthand.named name
  let call ← shorthand.call arguments
  makeCall shorthand.slot call

section

variable {b : Builder} {tables : SharedTables} {slot : Slot} {call : Call}

/-- The builder and the tables after a call. -/
def afterCall (b : Builder) (tables : SharedTables) (slot : Slot) (call : Call) :
    Builder × SharedTables :=
  ((makeCall slot call).run (b, tables)).2

/-- A call adds its clauses to its slot, keyed by the table that the handle of the slot has. -/
theorem request_afterCall : (b.afterCall tables slot call).1.request
    = b.request.map fun r => { r with
        conditions := r.conditions.append slot (call.clauses (tables.table (b.handle slot))).1 } := by
  have hmade : (b.afterCall tables slot call).1.request = b.request.map fun r => { r with
      conditions := r.conditions.append slot
        (tables.update (b.handle slot) fun t => call.clauses t).1 } := rfl
  rw [hmade, SharedTables.update_fst]

theorem own_afterCall : (b.afterCall tables slot call).1.own = b.own := rfl

theorem tables_afterCall : (b.afterCall tables slot call).2
    = (tables.update (b.handle slot) fun t => call.clauses t).2 := rfl

theorem handle_afterCall (other : Slot) :
    (b.afterCall tables slot call).1.handle other = b.handle other := by
  cases other <;> rfl

theorem shares_afterCall (a c : Nat) :
    (b.afterCall tables slot call).2.shares a c = tables.shares a c := by
  rw [tables_afterCall, SharedTables.shares_update]

/-- **Who shares the table** of the request sees what the call mentions. -/
theorem seen_afterCall (wf : tables.WellFormed) (placed : b.Placed tables) {a : Nat}
    (h : tables.shares a b.own = true) :
    (b.afterCall tables slot call).2.table a = (call.clauses (tables.table b.own)).2 := by
  have hslot := placed.shares slot
  have made := SharedTables.lt_of_shares hslot placed.made
  have hown := hslot
  rw [SharedTables.shares_comm] at hown
  rw [tables_afterCall, SharedTables.table_update_of_shares wf made (SharedTables.shares_trans h hown),
    SharedTables.table_of_shares hslot]

/-- **Nobody else** sees anything. -/
theorem unseen_afterCall (placed : b.Placed tables) {a : Nat}
    (h : tables.shares a b.own = false) :
    (b.afterCall tables slot call).2.table a = tables.table a := by
  have hslot : tables.shares a (b.handle slot) = false := by
    unfold SharedTables.shares at h ⊢
    rw [SharedTables.shares_iff.1 (placed.shares slot)]
    exact h
  rw [tables_afterCall, SharedTables.table_update_of_not_shares hslot]

/-- **The request** gets the clause of the call, over the table that it has now. -/
theorem read_afterCall (wf : tables.WellFormed) (placed : b.Placed tables) :
    (b.afterCall tables slot call).1.read (b.afterCall tables slot call).2
      = (b.read tables).map (·.add slot [call]) := by
  have htable : (b.afterCall tables slot call).2.table b.own
      = (call.clauses (tables.table b.own)).2 :=
    seen_afterCall wf placed (SharedTables.shares_refl tables b.own)
  rw [read, own_afterCall, htable, request_afterCall,
    SharedTables.table_of_shares (placed.shares slot), read]
  cases b.request with
  | error e => rfl
  | ok r =>
    show Except.ok _ = Except.ok _
    cases slot <;> simp [Request.withTable, Request.add, Conditions.add, Conditions.append,
      Call.clausesOfAll]

end

/-- What a change of a request does where its table is shared: the request is changed with the table
that it has, whoever shares the table sees the new one, and nobody else sees anything. -/
structure Performs (change : Request → Request) (before after : Builder × SharedTables) :
    Prop where
  read : after.1.read after.2 = (before.1.read before.2).map change
  own : after.1.own = before.1.own
  handles : ∀ slot, after.1.handle slot = before.1.handle slot
  shares : ∀ a c, after.2.shares a c = before.2.shares a c
  seen : ∀ a r, before.2.shares a before.1.own = true → before.1.read before.2 = .ok r →
    after.2.table a = (change r).conditions.placeholders
  unseen : ∀ a, before.2.shares a before.1.own = false → after.2.table a = before.2.table a

/-- A call through the handle of a slot is the call on the request: whoever shares its table sees
what it declares, and nobody else sees anything. -/
theorem performs_afterCall {b : Builder} {tables : SharedTables} (wf : tables.WellFormed)
    (placed : b.Placed tables) (slot : Slot) (call : Call) :
    Performs (·.add slot [call]) (b, tables) (b.afterCall tables slot call) where
  read := read_afterCall wf placed
  own := own_afterCall
  handles := handle_afterCall
  shares := shares_afterCall
  seen a r h hread := by
    -- the table of a request that is read is the one that its handle has
    obtain ⟨r₀, -, hr⟩ := map_eq_ok.1 hread
    have htable : r.conditions.placeholders = tables.table b.own := by
      rw [← hr]
      rfl
    rw [seen_afterCall wf placed h, ← htable]
    show _ = (r.conditions.add slot [call]).placeholders
    rw [Conditions.placeholders_add, Call.clauses_after, Call.mentionsAll, Call.mentionsAll,
      List.append_nil]
  unseen a h := unseen_afterCall placed h

/-- A check that fails ends the run, in the state that it was made in. -/
theorem run_check_bind {ε σ α β : Type} (x : Except ε α) (f : α → ExceptT ε (StateM σ) β) (s : σ) :
    ((liftM x : ExceptT ε (StateM σ) α) >>= f).run.run s
      = match x with
        | .ok a => (f a).run.run s
        | .error e => (.error e, s) := by
  cases x <;> rfl

/-- The name and the arguments are checked before a handle is used. -/
theorem run_addNamed (name : String) (arguments : Shorthand.Arguments) (b : Builder)
    (tables : SharedTables) :
    (addNamed name arguments).run.run (b, tables)
      = match Shorthand.named name with
        | .error e => (.error e, b, tables)
        | .ok shorthand =>
          match shorthand.call arguments with
          | .error e => (.error e, b, tables)
          | .ok call => (.ok (), b.afterCall tables shorthand.slot call) := by
  rw [addNamed, run_check_bind]
  cases Shorthand.named name with
  | error e => rfl
  | ok shorthand =>
    refine (run_check_bind (shorthand.call arguments) _ (b, tables)).trans ?_
    dsimp only
    cases shorthand.call arguments <;> rfl

/-- Where a name is known, the call is made through the handle of its slot. -/
theorem run_addNamed_spelled (slot : Slot) (connector : Connector)
    (arguments : Shorthand.Arguments) (b : Builder) (tables : SharedTables) :
    (addNamed (spelled slot connector arguments.shape) arguments).run.run (b, tables)
      = (.ok (), b.afterCall tables slot (arguments.call connector)) := by
  have hcall : Shorthand.call ⟨spelled slot connector arguments.shape, slot, connector,
      arguments.shape⟩ arguments = .ok (arguments.call connector) := Shorthand.call_of_shape rfl
  simp only [run_addNamed, Shorthand.named_spelled, hcall]

/-- **What is undefined does nothing** to the slots or to any table. -/
theorem run_addNamed_undefined {name method : String} {arguments : Shorthand.Arguments}
    (h : Undefined name arguments method) (b : Builder) (tables : SharedTables) :
    (addNamed name arguments).run.run (b, tables)
      = (.error (.undefinedMethod method), b, tables) := by
  cases h with
  | name unknown => simp only [run_addNamed, Shorthand.named_eq_error unknown]
  | shape known other =>
    subst known
    rw [run_addNamed, Shorthand.named_spelled]
    dsimp only
    rw [Shorthand.call_of_other_shape other]

end Builder

/-- **Shorthands are methods.** With arguments of the kind that its name tells, a shorthand does to
every request what the method of that name does, and no more, wherever the table of the request is
kept. Every other name, and every name with other arguments, is an undefined method, and leaves the
slots, and the tables behind all handles, as they were. -/
theorem shorthands_are_methods (name : String) (arguments : Shorthand.Arguments) :
    (∀ slot connector, name = spelled slot connector arguments.shape →
        (∀ r : Request, r.addNamed name arguments = .ok (r.method slot connector arguments))
          ∧ ∀ (b : Builder) (tables : SharedTables), tables.WellFormed → b.Placed tables →
              ∃ after, (Builder.addNamed name arguments).run.run (b, tables) = (.ok (), after)
                ∧ Builder.Performs (·.method slot connector arguments) (b, tables) after)
      ∧ ((∀ slot connector, name ≠ spelled slot connector arguments.shape) →
          ∃ method, Undefined name arguments method
            ∧ (∀ r : Request, r.addNamed name arguments = .error (.undefinedMethod method))
            ∧ ∀ (b : Builder) (tables : SharedTables),
                (Builder.addNamed name arguments).run.run (b, tables)
                  = (.error (.undefinedMethod method), b, tables)) := by
  refine ⟨?_, fun other => ?_⟩
  · rintro slot connector rfl
    refine ⟨fun r => r.addNamed_spelled slot connector arguments, fun b tables wf placed => ?_⟩
    have hrun := Builder.run_addNamed_spelled slot connector arguments b tables
    have performs := Builder.performs_afterCall wf placed slot (arguments.call connector)
    refine ⟨_, hrun, ?_⟩
    simpa only [Request.method_eq_add] using performs
  · have undefined : ∃ method, Undefined name arguments method := by
      -- a name that is spelled like none is undefined, and so is one for other arguments
      by_cases known : ∃ slot connector shape, name = spelled slot connector shape
      · obtain ⟨slot, connector, shape, known⟩ := known
        exact ⟨_, .shape known fun h => other slot connector (h ▸ known)⟩
      · exact ⟨_, .name fun slot connector shape h => known ⟨slot, connector, shape, h⟩⟩
    obtain ⟨method, h⟩ := undefined
    exact ⟨method, h, fun r => r.addNamed_undefined h, Builder.run_addNamed_undefined h⟩

/-- Two tables. The first has a handle for a request and one for each slot. -/
def twoTables : SharedTables := ⟨[.empty, .empty], [0, 0, 0, 0, 1]⟩

def threadBuilder : Builder := ⟨.ok (Config.table {} "Thread"), 0, 1, 2, 3⟩

/-- A range on the key condition, by its name, and a name that is known but for a membership only.
-/
theorem shorthands_are_methods_range :
    (∃ after, (Builder.addNamed "orKeyConditionBetween"
          (.range "Views" (.number "1") (.number "10"))).run.run (threadBuilder, twoTables)
            = (.ok (), after)
        ∧ Builder.Performs (·.orKeyConditionBetween "Views" (.number "1") (.number "10"))
            (threadBuilder, twoTables) after)
      ∧ ∃ method, Undefined "filterIn" (.range "Views" (.number "1") (.number "10")) method
        ∧ (Builder.addNamed "filterIn"
            (.range "Views" (.number "1") (.number "10"))).run.run (threadBuilder, twoTables)
              = (.error (.undefinedMethod method), threadBuilder, twoTables) := by
  have wf : twoTables.WellFormed :=
    show ∀ owner ∈ [0, 0, 0, 0, 1], owner < 2 by decide
  have placed : threadBuilder.Placed twoTables := ⟨by decide, by rintro (_ | _ | _) <;> rfl⟩
  have other : ∀ slot connector, "filterIn" ≠ spelled slot connector .range := by
    rintro (_ | _ | _) (_ | _) <;> decide
  obtain ⟨-, hrun⟩ := (shorthands_are_methods "orKeyConditionBetween"
    (.range "Views" (.number "1") (.number "10"))).1 .keyCondition .or rfl
  obtain ⟨method, undefined, -, hfails⟩ := (shorthands_are_methods "filterIn"
    (.range "Views" (.number "1") (.number "10"))).2 other
  exact ⟨hrun threadBuilder twoTables wf placed, method, undefined,
    hfails threadBuilder twoTables⟩

end TableQuery
