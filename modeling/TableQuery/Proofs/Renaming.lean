import Mathlib.Logic.Equiv.Basic
import TableQuery.Proofs.Compilation
import TableQuery.Proofs.Expression.Update

/-!
# Renaming columns and values

The text of an expression does not depend on what columns are called or what values are, only on
which of them are equal. Two requests that differ by a renaming are run side by side: their
placeholder tables hold different things under the same keys, and stay that way through every step.

* **`nameKey_table`**, **`valueKey_table`** — what is used after renaming gets the same key.
* **`clauses_call`**, **`record_updateCalls`** — clauses and changes are keyed alike.
* **`steps_renamed`** — so are the requests after a run of steps.
* **`compile_renamed`** — compiling fails alike, or gives the same expressions and keys.
-/

namespace TableQuery

/-- Other names for columns and other values for values. Different things stay different, and null
and nothing else stays null. -/
structure Renaming where
  column : String → String
  value : Value → Value
  column_injective : Function.Injective column
  value_injective : Function.Injective value
  value_null : ∀ v, value v = .null ↔ v = .null

namespace Renaming

variable (ρ : Renaming)

/-- A renaming makes no null and takes none away, so an assignment stays an assignment. -/
theorem isNull_value (v : Value) : (ρ.value v).isNull = v.isNull := by
  -- the test looks at the constructor only
  have hnull (w : Value) : w.isNull = true ↔ w = .null := by
    cases w <;> simp [Value.isNull]
  rw [Bool.eq_iff_iff, hnull, hnull]
  exact ρ.value_null v

/-! ## What is renamed -/

def item (i : Item) : Item := ⟨i.entries.map fun e => (ρ.column e.1, ρ.value e.2)⟩

/-- Tokens stay as they are. -/
def operand : Operand → Operand
  | .equals value => .equals (ρ.value value)
  | .bare token => .bare token
  | .operator token value => .operator token (ρ.value value)

mutual

def call (ρ : Renaming) : Call → Call
  | .compare connector column operand =>
    .compare connector (ρ.column column) (ρ.operand operand)
  | .size connector column operator value =>
    .size connector (ρ.column column) operator (ρ.value value)
  | .membership connector column values negated =>
    .membership connector (ρ.column column) (values.map ρ.value) negated
  | .between connector column low high negated =>
    .between connector (ρ.column column) (ρ.value low) (ρ.value high) negated
  | .group connector calls => .group connector (ρ.calls calls)
  | .graft connector clauses => .graft connector clauses

def calls (ρ : Renaming) : List Call → List Call
  | [] => []
  | call :: rest => ρ.call call :: ρ.calls rest

end

def arguments : Shorthand.Arguments → Shorthand.Arguments
  | .comparison column operand => .comparison (ρ.column column) (ρ.operand operand)
  | .membership column values => .membership (ρ.column column) (values.map ρ.value)
  | .range column low high => .range (ρ.column column) (ρ.value low) (ρ.value high)

def updateCall : Update.Call → Update.Call
  | .assign item => .assign (ρ.item item)
  | .increment column amount => .increment (ρ.column column) (ρ.value amount)
  | .decrement column amount => .decrement (ρ.column column) (ρ.value amount)

/-- The same keys, bound to what their things are renamed to. -/
def table (t : Placeholders) : Placeholders :=
  { t with names := t.names.mapValues ρ.column, values := t.values.mapValues ρ.value }

/-- The same clauses, keyed by the renamed table. -/
def conditions (c : Conditions) : Conditions := { c with placeholders := ρ.table c.placeholders }

end Renaming

/-! ## Recognized tokens

A token alone that is neither operator nor function is the string that the column has to equal. It
is a value then, though it does not look like one, and a renaming does not reach it. -/

def Operand.isRecognized : Operand → Bool
  | .bare token => isKnown token
  | _ => true

mutual

def Call.isRecognized : Call → Bool
  | .compare _ _ operand => operand.isRecognized
  | .group _ calls => Call.areRecognized calls
  | _ => true

def Call.areRecognized : List Call → Bool
  | [] => true
  | call :: rest => call.isRecognized && Call.areRecognized rest

end

def Shorthand.Arguments.isRecognized : Shorthand.Arguments → Bool
  | .comparison _ operand => operand.isRecognized
  | _ => true

def Step.isRecognized : Step → Bool
  | .set _ => true
  | .add _ calls => Call.areRecognized calls
  | .addNamed _ arguments => arguments.isRecognized

/-! ## Declaring renamed things -/

/-- Declaring goes by equality alone. -/
theorem KeySupply.declare_mapValues {α β : Type} [BEq α] [LawfulBEq α] [BEq β] [LawfulBEq β]
    {f : α → β} (hf : Function.Injective f) (s : KeySupply) (m : OrderedMap α) (a : α) :
    s.declare (m.mapValues f) (f a)
      = ((s.declare m a).1, (s.declare m a).2.1.mapValues f, (s.declare m a).2.2) := by
  have hbeq (b : α) : (f b == f a) = (b == a) := by
    rw [Bool.eq_iff_iff, beq_iff_eq, beq_iff_eq]
    exact hf.eq_iff
  -- the same entry is found, or none on both sides
  have hwhere : (m.mapValues f).keyWhere? (· == f a) = m.keyWhere? (· == a) := by
    simp [OrderedMap.keyWhere?, OrderedMap.mapValues, List.find?_map, Function.comp_def, hbeq]
  unfold declare
  rw [hwhere]
  cases m.keyWhere? (· == a) with
  | some key => rfl
  | none => simp only [OrderedMap.insert_mapValues]

namespace Renaming

variable (ρ : Renaming)

/-- A renamed column gets the key that the column gets, in the renamed table. -/
theorem nameKey_table (t : Placeholders) (column : String) :
    (ρ.table t).nameKey (ρ.column column)
      = ((t.nameKey column).1, ρ.table (t.nameKey column).2) := by
  have hdeclare :=
    KeySupply.declare_mapValues ρ.column_injective t.nameSupply t.names column
  simp only [Placeholders.nameKey, table, hdeclare]

/-- A renamed value gets the key that the value gets, in the renamed table. -/
theorem valueKey_table (t : Placeholders) (value : Value) :
    (ρ.table t).valueKey (ρ.value value)
      = ((t.valueKey value).1, ρ.table (t.valueKey value).2) := by
  have hdeclare :=
    KeySupply.declare_mapValues ρ.value_injective t.valueSupply t.values value
  simp only [Placeholders.valueKey, table, hdeclare]

/-- Several renamed columns get the keys that the columns get. -/
theorem nameKeys_table (t : Placeholders) (columns : List String) :
    (ρ.table t).nameKeys (columns.map ρ.column)
      = ((t.nameKeys columns).1, ρ.table (t.nameKeys columns).2) := by
  induction columns generalizing t with
  | nil => rfl
  | cons column rest ih =>
    simp only [List.map_cons, Placeholders.nameKeys, nameKey_table, ih]

/-- Several renamed values get the keys that the values get. -/
theorem valueKeys_table (t : Placeholders) (values : List Value) :
    (ρ.table t).valueKeys (values.map ρ.value)
      = ((t.valueKeys values).1, ρ.table (t.valueKeys values).2) := by
  induction values generalizing t with
  | nil => rfl
  | cons value rest ih =>
    simp only [List.map_cons, Placeholders.valueKeys, valueKey_table, ih]

/-- Renamed columns to return are written as the same text. -/
theorem projection_table (t : Placeholders) (columns : List String) :
    (ρ.table t).projection (columns.map ρ.column)
      = ((t.projection columns).1, ρ.table (t.projection columns).2) := by
  cases columns with
  | nil => rfl
  | cons column rest =>
    have hkeys := nameKeys_table ρ t (column :: rest)
    rw [List.map_cons] at hkeys
    simp only [List.map_cons, Placeholders.projection, List.isEmpty_cons, Bool.false_eq_true,
      if_false, hkeys]

/-! ## Clauses and changes are keyed alike -/

/-- A renamed comparison is keyed like the comparison. Its token has to be recognized, since any
other token is a value that is not renamed. -/
theorem predicate_operand (t : Placeholders) (column : String) {operand : Operand}
    (recognized : operand.isRecognized = true) :
    (ρ.operand operand).predicate (ρ.table t) (ρ.column column)
      = ((operand.predicate t column).1, ρ.table (operand.predicate t column).2) := by
  cases operand with
  | equals value =>
    simp only [Renaming.operand, Operand.predicate, Operand.equality, nameKey_table, valueKey_table]
  | bare token =>
    -- a token that is recognized stands for a predicate of its own, without a value
    obtain ⟨p, hp⟩ := Operand.alone?_eq_some (ω := String) recognized (t.nameKey column).1
    simp only [Renaming.operand, Operand.predicate, nameKey_table, hp]
  | operator token value =>
    simp only [Renaming.operand, Operand.predicate, nameKey_table, valueKey_table]

/-- A renamed comparison of a size is keyed like the comparison. -/
theorem sizePredicate_table (t : Placeholders) (column operator : String) (value : Value) :
    Call.sizePredicate (ρ.table t) (ρ.column column) operator (ρ.value value)
      = ((Call.sizePredicate t column operator value).1,
          ρ.table (Call.sizePredicate t column operator value).2) := by
  simp only [Call.sizePredicate, nameKey_table, valueKey_table]
  cases Comparison.ofToken? operator <;> rfl

mutual

/-- **Clauses are keyed alike** by a call and the renamed call. -/
theorem clauses_call (t : Placeholders) : ∀ call : Call, call.isRecognized = true →
    (ρ.call call).clauses (ρ.table t) = ((call.clauses t).1, ρ.table (call.clauses t).2)
  | .compare connector column operand, recognized => by
    simp only [Renaming.call, Call.clauses, predicate_operand ρ t column recognized]
  | .size connector column operator value, _ => by
    simp only [Renaming.call, Call.clauses, sizePredicate_table]
  | .membership connector column values negated, _ => by
    simp only [Renaming.call, Call.clauses, Call.membershipPredicate, nameKey_table,
      valueKeys_table]
  | .between connector column low high negated, _ => by
    simp only [Renaming.call, Call.clauses, Call.betweenPredicate, nameKey_table, valueKey_table]
  | .group connector calls, recognized => by
    simp only [Renaming.call, Call.clauses, clausesOfAll_calls t calls recognized]
  | .graft connector clauses, _ => rfl

/-- Several renamed calls add the same clauses, each over the table that the one before it leaves.
-/
theorem clausesOfAll_calls (t : Placeholders) : ∀ calls : List Call,
    Call.areRecognized calls = true →
      Call.clausesOfAll (ρ.table t) (ρ.calls calls)
        = ((Call.clausesOfAll t calls).1, ρ.table (Call.clausesOfAll t calls).2)
  | [], _ => rfl
  | call :: rest, recognized => by
    rw [Call.areRecognized, Bool.and_eq_true] at recognized
    simp only [Renaming.calls, Call.clausesOfAll, clauses_call t call recognized.1,
      clausesOfAll_calls _ rest recognized.2]

end

/-- What renamed calls add to a slot are the same clauses. -/
theorem add_conditions (c : Conditions) (slot : Slot) {calls : List Call}
    (recognized : Call.areRecognized calls = true) :
    (ρ.conditions c).add slot (ρ.calls calls) = ρ.conditions (c.add slot calls) := by
  have hclauses := clausesOfAll_calls ρ c.placeholders calls recognized
  unfold Conditions.add
  simp only [conditions, hclauses]
  cases slot <;> rfl

/-- A renamed assignment is the same change, keyed alike. -/
theorem assignment_table (t : Placeholders) (column : String) (value : Value) :
    Update.assignment (ρ.table t) (ρ.column column) (ρ.value value)
      = ((Update.assignment t column value).1, ρ.table (Update.assignment t column value).2) := by
  unfold Update.assignment
  -- what is removed on the one side is removed on the other
  simp only [nameKey_table, isNull_value]
  cases value.isNull with
  | true => rfl
  | false => simp only [valueKey_table, Bool.false_eq_true, if_false]

/-- Several renamed assignments are the same changes. -/
theorem assignments_table (t : Placeholders) (es : List (String × Value)) :
    Update.assignments (ρ.table t) (es.map fun e => (ρ.column e.1, ρ.value e.2))
      = ((Update.assignments t es).1, ρ.table (Update.assignments t es).2) := by
  induction es generalizing t with
  | nil => rfl
  | cons e rest ih =>
    obtain ⟨column, value⟩ := e
    simp only [List.map_cons, Update.assignments, assignment_table, ih]

/-- A renamed call of an update makes the same changes. -/
theorem changes_updateCall (t : Placeholders) (call : Update.Call) :
    (ρ.updateCall call).changes (ρ.table t) = ((call.changes t).1, ρ.table (call.changes t).2) := by
  cases call with
  | assign item => exact assignments_table ρ t item.entries
  | increment column amount =>
    simp only [updateCall, Update.Call.changes, Update.increment, nameKey_table, valueKey_table]
  | decrement column amount =>
    simp only [updateCall, Update.Call.changes, Update.decrement, nameKey_table, valueKey_table]

/-- **Changes are keyed alike** by calls on an update and the renamed calls. -/
theorem record_updateCalls (t : Placeholders) (calls : List Update.Call) :
    Update.record (ρ.table t) (calls.map ρ.updateCall)
      = ((Update.record t calls).1, ρ.table (Update.record t calls).2) := by
  induction calls generalizing t with
  | nil => rfl
  | cons call rest ih => simp only [List.map_cons, Update.record, changes_updateCall, ih]

end Renaming

/-! ## Requests side by side -/

/-- The columns to return that a setting tells, if it tells any. -/
def Setting.columns? : Setting → Option (List String)
  | .select columns => some columns
  | _ => none

namespace Renaming

/-- The one step is the other, renamed. Options are free where they tell no columns to return. -/
inductive Relates (ρ : Renaming) : Step → Step → Prop where
  | set {a b : Setting} (h : b.columns? = a.columns?.map (List.map ρ.column)) :
    Relates ρ (.set a) (.set b)
  | add (slot : Slot) (calls : List Call) : Relates ρ (.add slot calls) (.add slot (ρ.calls calls))
  | addNamed (name : String) (arguments : Shorthand.Arguments) :
    Relates ρ (.addNamed name arguments) (.addNamed name (ρ.arguments arguments))

/-- The one request is the other, renamed, in all that its expressions depend on. -/
structure Twins (ρ : Renaming) (r r' : Request) : Prop where
  conditions : r'.conditions = ρ.conditions r.conditions
  columns : r'.options.columns = r.options.columns.map ρ.column

variable {ρ : Renaming}

/-- A setting changes the columns to return only if it tells some. -/
theorem columns_set (o : Options) (s : Setting) :
    (o.set s).columns = s.columns?.getD o.columns := by
  cases s <;> rfl

/-- A shorthand with renamed arguments is the renamed call, or fails for the shape of its arguments
as it did. -/
theorem shorthand_call (ρ : Renaming) (s : Shorthand) (arguments : Shorthand.Arguments) :
    s.call (ρ.arguments arguments) = (s.call arguments).map ρ.call := by
  -- a renaming keeps the shape of arguments, which is all that the check of a shorthand looks at
  have hshape : (ρ.arguments arguments).shape = arguments.shape := by
    cases arguments <;> rfl
  have hcall : (ρ.arguments arguments).call s.connector = ρ.call (arguments.call s.connector) := by
    cases arguments <;> rfl
  unfold Shorthand.call
  rw [hshape, hcall]
  split <;> rfl

/-- The call of a shorthand is recognized if its arguments are. -/
theorem isRecognized_shorthand {s : Shorthand} {arguments : Shorthand.Arguments} {call : Call}
    (recognized : arguments.isRecognized = true) (h : s.call arguments = .ok call) :
    Call.areRecognized [call] = true := by
  unfold Shorthand.call at h
  split at h
  · cases h
    cases arguments with
    | comparison column operand => exact (Bool.and_true _).trans recognized
    | membership column values => rfl
    | range column low high => rfl
  · cases h

/-- The same clauses are added to twins by a call and its renaming. -/
theorem Twins.add {r r' : Request} (twins : ρ.Twins r r') (slot : Slot) {calls : List Call}
    (recognized : Call.areRecognized calls = true) :
    ρ.Twins (r.add slot calls) (r'.add slot (ρ.calls calls)) := by
  refine ⟨?_, twins.columns⟩
  show r'.conditions.add slot (ρ.calls calls) = ρ.conditions (r.conditions.add slot calls)
  rw [twins.conditions, add_conditions ρ r.conditions slot recognized]

/-- One step, on both sides. -/
theorem step_renamed {r r' : Request} {s s' : Step} (twins : ρ.Twins r r')
    (renamed : ρ.Relates s s') (recognized : s.isRecognized = true) :
    Lockstep ρ.Twins (r.step s) (r'.step s') := by
  cases renamed with
  | @set a b h =>
    refine .ok ⟨twins.conditions, ?_⟩
    show (r'.options.set b).columns = (r.options.set a).columns.map ρ.column
    rw [columns_set, columns_set, h, twins.columns]
    cases a.columns? <;> rfl
  | add slot calls => exact .ok (twins.add slot recognized)
  | addNamed name arguments =>
    show Lockstep _ (r.addNamed name arguments) (r'.addNamed name (ρ.arguments arguments))
    unfold Request.addNamed
    -- shorthands are found by their name, and check the shape of the arguments only
    refine (Lockstep.refl (Shorthand.named name)).bind fun s _ hs => ?_
    subst hs
    rw [shorthand_call]
    cases h : s.call arguments with
    | error e => exact .error e
    | ok call => exact .ok (twins.add s.slot (isRecognized_shorthand recognized h))

/-- **A run of steps, on both sides.** -/
theorem steps_renamed {r r' : Request} {steps steps' : List Step} (twins : ρ.Twins r r')
    (renamed : List.Forall₂ ρ.Relates steps steps')
    (recognized : steps.all Step.isRecognized = true) :
    Lockstep ρ.Twins (r.steps steps) (r'.steps steps') := by
  induction renamed generalizing r r' with
  | nil => exact .ok twins
  | cons hstep _ ih =>
    rw [List.all_cons, Bool.and_eq_true] at recognized
    exact (step_renamed twins hstep recognized.1).bind fun _ _ twins => ih twins recognized.2

/-! ## Compiling side by side -/

/-- A renaming changes no key, so the same name keys are found undeclared. -/
theorem undeclaredName_table (ρ : Renaming) (t : Placeholders) :
    (ρ.table t).undeclaredName = t.undeclaredName := by
  have hdeclares (key : String) : (ρ.table t).declaresName key = t.declaresName key := by
    simp [Placeholders.declaresName, table, OrderedMap.contains, OrderedMap.mapValues,
      Function.comp_def]
  funext key
  rw [Placeholders.undeclaredName, Placeholders.undeclaredName, hdeclares]

/-- The same value keys are found undeclared. -/
theorem undeclaredValue_table (ρ : Renaming) (t : Placeholders) :
    (ρ.table t).undeclaredValue = t.undeclaredValue := by
  have hdeclares (key : String) : (ρ.table t).declaresValue key = t.declaresValue key := by
    simp [Placeholders.declaresValue, table, OrderedMap.contains, OrderedMap.mapValues,
      Function.comp_def]
  funext key
  rw [Placeholders.undeclaredValue, Placeholders.undeclaredValue, hdeclares]

end Renaming

/-- What a request tells of its columns and values without naming them: the expressions, and the
keys in the order of their declaration. -/
structure Wire.Outline where
  filterExpression : Option String
  conditionExpression : Option String
  keyConditionExpression : Option String
  projectionExpression : Option String
  updateExpression : Option String
  returnValues : Option Wire.ReturnValue
  names : List String
  values : List String

def Wire.Parameters.outline (p : Wire.Parameters) : Wire.Outline where
  filterExpression := p.filterExpression
  conditionExpression := p.conditionExpression
  keyConditionExpression := p.keyConditionExpression
  projectionExpression := p.projectionExpression
  updateExpression := p.updateExpression
  returnValues := p.returnValues
  names := p.expressionAttributeNames.keys
  values := p.expressionAttributeValues.keys

namespace Renaming

variable {ρ : Renaming}

theorem keys_names_table (ρ : Renaming) (t : Placeholders) :
    (ρ.table t).names.keys = t.names.keys := OrderedMap.keys_mapValues _ _

theorem keys_sentValues_table (ρ : Renaming) (t : Placeholders) :
    (ρ.table t).sentValues.keys = t.sentValues.keys := by
  refine OrderedMap.keys_ofList_congr ?_
  simp [table, OrderedMap.mapValues, Function.comp_def]

/-- Requests that are twins compile alike, whatever operations and items they are compiled for. -/
theorem Twins.compile {r r' : Request} (twins : ρ.Twins r r') (updates : List Update.Call)
    (operation operation' : Operation) (item item' : Item) :
    Lockstep (fun p p' => p.outline = p'.outline) (r.compile operation item updates)
      (r'.compile operation' item' (updates.map ρ.updateCall)) := by
  have hplaceholders : r'.conditions.placeholders = ρ.table r.conditions.placeholders := by
    rw [twins.conditions]
    rfl
  have hrecord : r'.record (updates.map ρ.updateCall)
      = ((r.record updates).1, ρ.table (r.record updates).2) := by
    rw [Request.record, hplaceholders, record_updateCalls]
    rfl
  have hprojection : (ρ.table (r.record updates).2).projection r'.options.columns
      = (((r.record updates).2.projection r.options.columns).1,
          ρ.table ((r.record updates).2.projection r.options.columns).2) := by
    rw [twins.columns, projection_table]
  -- what is written depends on which keys are declared, not on what is bound to them
  have hexpression (t : Placeholders) (cs : List KeyedClause) :
      Condition.expression (ρ.table t) cs = Condition.expression t cs :=
    Condition.expression_congr (undeclaredName_table ρ t) (undeclaredValue_table ρ t) cs
  have hupdate (t : Placeholders) (changes : List KeyedChange) :
      Update.expression (ρ.table t) changes = Update.expression t changes :=
    Update.expression_congr (undeclaredName_table ρ t) (undeclaredValue_table ρ t) changes
  have hfilter : r'.conditions.filter = r.conditions.filter := by
    rw [twins.conditions]
    rfl
  have hcondition : r'.conditions.condition = r.conditions.condition := by
    rw [twins.conditions]
    rfl
  have hkeyCondition : r'.conditions.keyCondition = r.conditions.keyCondition := by
    rw [twins.conditions]
    rfl
  unfold Request.compile Request.parameters Request.recorded
  simp only [hrecord, hprojection, hexpression, hupdate, hfilter, hcondition, hkeyCondition]
  -- the same four expressions are written on both sides, one after the other
  refine (Lockstep.refl _).bind fun filter _ h => ?_
  subst h
  refine (Lockstep.refl _).bind fun condition _ h => ?_
  subst h
  refine (Lockstep.refl _).bind fun keyCondition _ h => ?_
  subst h
  refine (Lockstep.refl _).bind fun update _ h => ?_
  subst h
  refine .ok ?_
  simp only [Wire.Parameters.outline, keys_names_table, keys_sentValues_table]

/-- **Expressions do not depend on contents.** Two requests whose steps, calls on the update and
columns to return differ by a renaming either fail with the same error, or compile to the same
expressions and to placeholder maps with the same keys in the same order. This holds for any tables,
operations and items, and for all options but the columns to return. -/
theorem compile_renamed (ρ : Renaming) {steps steps' : List Step} (updates : List Update.Call)
    (renamed : List.Forall₂ ρ.Relates steps steps')
    (recognized : steps.all Step.isRecognized = true) (config config' : Config)
    (table table' : String) (operation operation' : Operation) (item item' : Item) :
    ((config.table table).steps steps >>= fun r => r.compile operation item updates).map
        Wire.Parameters.outline
      = ((config'.table table').steps steps' >>= fun r =>
          r.compile operation' item' (updates.map ρ.updateCall)).map Wire.Parameters.outline := by
  have twins : ρ.Twins (config.table table) (config'.table table') := ⟨rfl, rfl⟩
  have hsteps := steps_renamed twins renamed recognized
  have hcompile := hsteps.bind fun _ _ twins =>
    twins.compile updates operation operation' item item'
  exact hcompile.map_eq fun _ _ h => h

/-- A column and a value that look like parts of an expression, in place of plain ones. -/
def disguise : Renaming where
  column := Equiv.swap "Views" "#1) or (#1"
  value := Equiv.swap (.number "9") (.string ":1 and :2")
  column_injective := Equiv.injective _
  value_injective := Equiv.injective _
  value_null v := by
    rw [Equiv.swap_apply_eq_iff, Equiv.swap_apply_of_ne_of_ne (by decide) (by decide)]

def plainSteps : List Step :=
  [.add .filter
    [.group .and [.compare .and "Views" (.operator "<>" (.number "9"))],
      .between .or "Views" (.number "9") (.number "12") true]]

def disguisedSteps : List Step :=
  [.set (.limit 1),
    .add .filter
      [.group .and [.compare .and "#1) or (#1" (.operator "<>" (.string ":1 and :2"))],
        .between .or "#1) or (#1" (.string ":1 and :2") (.number "12") true]]

/-- A column that looks like the end of a group, and a value that looks like two keys: the
expressions are those of the plain request, and nothing of either shows in them. -/
theorem compile_renamed_disguise :
    ((Config.table {} "Thread").steps (.set (.dryRun true) :: plainSteps) >>= fun r =>
          r.compile .scan ∅ [.increment "Views" (.number "9")]).map Wire.Parameters.outline
        = ((Config.table {} "Forum").steps disguisedSteps >>= fun r =>
          r.compile .query ∅ [.increment "#1) or (#1" (.string ":1 and :2")]).map
            Wire.Parameters.outline
      ∧ ((Config.table {} "Forum").steps disguisedSteps >>= fun r =>
          r.compile .query ∅ []).map (·.filterExpression)
        = .ok (some "(#1 <> :1) or not (#1 between :1 and :2)") :=
  ⟨compile_renamed disguise [.increment "Views" (.number "9")]
    (.cons (.set rfl) (.cons (.add .filter _) .nil)) (by decide) {} {} "Thread" "Forum" .scan
    .query ∅ ∅, rfl⟩

end Renaming

end TableQuery
