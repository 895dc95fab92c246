import TableQuery.Proofs.Refusal

/-!
# Numbers in the order of first use

The keys of a request are numbered in the order in which its columns and values are first mentioned,
by calls on whatever slot, then by the update, then by the columns to return. Connectors, negations,
groups and slots mention nothing, so a request is also looked at without them: as the calls that add
one clause each (`Leaf`), in the order in which they were made.

* **`mentions_leaves`** — what calls mention is what their leaves mention.
* **`faultsAll_leaves`**, **`faultless_steps`** — and what is wrong with clauses is wrong with
  leaves, whatever has been declared.
* **`exists_compile_iff`** — so it depends on leaves alone whether a request can be compiled.
* **`numbered_by_first_use`** — which keys are declared, and that steps with the same leaves and
  settings declare the same.
-/

namespace TableQuery

open Mention (columnsOf valuesOf InRange)

/-! ## Calls that add one clause -/

/-- A call that adds a clause, without what joins, negates or groups it. -/
inductive Leaf where
  | compare (column : String) (operand : Operand)
  | size (column operator : String) (value : Value)
  | membership (column : String) (values : List Value)
  | between (column : String) (low high : Value)

namespace Leaf

/-- The column comes first, then the values from left to right. -/
def mentions : Leaf → List Mention
  | .compare column operand => .column column :: operand.mentions
  | .size column _ value => [.column column, .value value]
  | .membership column values => .column column :: values.map .value
  | .between column low high => [.column column, .value low, .value high]

/-- What keeps the clause from having an expression. -/
def faults : Leaf → List (String × Unsupported)
  | .compare column operand => (operand.direct column).faults
  | .size column operator value => (Call.sizeDirect column operator value).faults
  | .membership _ values => if values.isEmpty then [("in", .noMembers)] else []
  | .between .. => []

end Leaf

namespace Call

mutual

/-- The calls that add one clause each, depth first. -/
def leaves : Call → List Leaf
  | .compare _ column operand => [.compare column operand]
  | .size _ column operator value => [.size column operator value]
  | .membership _ column values _ => [.membership column values]
  | .between _ column low high _ => [.between column low high]
  | .group _ calls => leavesAll calls
  | .graft _ _ => []

def leavesAll : List Call → List Leaf
  | [] => []
  | call :: rest => call.leaves ++ leavesAll rest

end

mutual

theorem mentions_leaves : ∀ call : Call, call.mentions = call.leaves.flatMap Leaf.mentions
  | .compare .. => (List.flatMap_singleton ..).symm
  | .size .. => rfl
  | .membership .. => (List.flatMap_singleton ..).symm
  | .between .. => rfl
  | .group _ calls => mentionsAll_leaves calls
  | .graft .. => rfl

/-- **What calls mention** is what their leaves mention, in the same order. -/
theorem mentionsAll_leaves : ∀ calls : List Call,
    mentionsAll calls = (leavesAll calls).flatMap Leaf.mentions
  | [] => rfl
  | call :: rest => by
    rw [mentionsAll, leavesAll, List.flatMap_append, mentions_leaves call, mentionsAll_leaves rest]

end

end Call

/-! ## Faults of leaves -/

/-- Which keys a table hands out does not matter to whether a clause has an expression. -/
theorem Operand.faults_predicate (t : Placeholders) (column : String) (operand : Operand) :
    (operand.predicate t column).1.faults = (operand.direct column).faults := by
  cases operand with
  | equals value => rfl
  | bare token =>
    -- the token alone decides whether there is a predicate, and what is wrong with it
    have hmap := alone?_map (fun _ => (t.nameKey column).1) (fun _ : Value => "") column token
    unfold predicate direct
    cases h : (alone? column token : Option (Predicate String Value)) with
    | none =>
      rw [h, Option.map_none] at hmap
      simp only [← hmap, h]
      rfl
    | some p =>
      rw [h, Option.map_some] at hmap
      simp only [← hmap, h]
      exact p.faults_map _ _
  | operator token value =>
    have hmap := applied_map (fun _ => (t.nameKey column).1)
      (fun _ : Value => ((t.nameKey column).2.valueKey value).1) column token value
    show (applied (t.nameKey column).1 token ((t.nameKey column).2.valueKey value).1).faults = _
    rw [← hmap, Predicate.faults_map]
    rfl

namespace Call

theorem faults_sizePredicate (t : Placeholders) (column operator : String) (value : Value) :
    (sizePredicate t column operator value).1.faults
      = (sizeDirect column operator value).faults := by
  unfold sizePredicate sizeDirect
  cases Comparison.ofToken? operator <;> rfl

theorem faults_membershipPredicate (t : Placeholders) (column : String) (values : List Value)
    (negated : Bool) :
    (membershipPredicate t column values negated).1.faults
      = (Leaf.membership column values).faults := by
  cases values <;> rfl

theorem faultsAll_single {connector : Connector} {p : KeyedPredicate}
    {faults : List (String × Unsupported)} (h : p.faults = faults) :
    Clause.faultsAll [(connector, p)] = faults := by
  rw [Clause.faultsAll, Clause.faultsAll, List.append_nil, h]

mutual

theorem faults_leaves (t : Placeholders) : ∀ call : Call, call.isNative = true →
    Clause.faultsAll (call.clauses t).1 = call.leaves.flatMap Leaf.faults
  | .compare _ column operand, _ => by
    rw [leaves, List.flatMap_singleton]
    exact faultsAll_single (operand.faults_predicate t column)
  | .size _ column operator value, _ => by
    rw [leaves, List.flatMap_singleton]
    exact faultsAll_single (faults_sizePredicate t column operator value)
  | .membership _ column values negated, _ => by
    rw [leaves, List.flatMap_singleton]
    exact faultsAll_single (faults_membershipPredicate t column values negated)
  | .between .., _ => rfl
  | .group connector calls, native => by
    rw [clauses, faultsAll_groupClauses]
    exact faultsAll_leaves t calls native
  | .graft .., native => nomatch native

/-- **What is wrong with clauses** is wrong with the leaves that they were added by. -/
theorem faultsAll_leaves (t : Placeholders) : ∀ calls : List Call, areNative calls = true →
    Clause.faultsAll (clausesOfAll t calls).1 = (leavesAll calls).flatMap Leaf.faults
  | [], _ => rfl
  | call :: rest, native => by
    rw [areNative, Bool.and_eq_true] at native
    rw [clausesOfAll, leavesAll, List.flatMap_append, Clause.faultsAll_append,
      faults_leaves t call native.1, faultsAll_leaves (call.clauses t).2 rest native.2]

end

end Call

/-! ## Steps with the same leaves -/

namespace Step

/-- The leaves of what a step adds, to whatever slot. -/
def leaves (s : Step) : List Leaf :=
  match s.added? with
  | some (_, calls) => Call.leavesAll calls
  | none => []

theorem mentions_leaves (s : Step) : s.mentions = s.leaves.flatMap Leaf.mentions := by
  unfold mentions leaves
  cases s.added? with
  | none => rfl
  | some a => exact Call.mentionsAll_leaves a.2

theorem flatMap_mentions (steps : List Step) :
    steps.flatMap mentions = (steps.flatMap leaves).flatMap Leaf.mentions := by
  rw [List.flatMap_assoc]
  exact congrArg (steps.flatMap ·) (funext mentions_leaves)

/-- The same settings, and calls that add the same clauses but for their slots, connectors,
negations and groups. -/
structure Alike (steps steps' : List Step) : Prop where
  settings : steps.filterMap setting? = steps'.filterMap setting?
  leaves : steps.flatMap leaves = steps'.flatMap leaves

end Step

namespace Request

/-- A step adds no fault but those of its leaves, and adds these to one slot. -/
theorem faultless_step {r r' : Request} {s : Step} (h : r.step s = .ok r')
    (native : s.isNative = true) :
    (∀ slot, Clause.faultsAll (r'.conditions.clauses slot) = [])
      ↔ (∀ slot, Clause.faultsAll (r.conditions.clauses slot) = [])
        ∧ s.leaves.flatMap Leaf.faults = [] := by
  unfold Step.leaves
  -- a step adds its calls to one slot or leaves all slots as they are
  obtain ⟨hadded, hc⟩ | ⟨target, calls, hadded, hc⟩ := step_inv h
  · rw [hadded, hc]
    simp
  · have hcalls := Call.faultsAll_leaves r.conditions.placeholders calls
      (Step.areNative_of_added? native hadded)
    rw [hadded, hc]
    simp only [Conditions.clauses_add, Clause.faultsAll_append, List.append_eq_nil_iff, ← hcalls]
    constructor
    · intro hall
      have htarget := (hall target).2
      rw [if_pos rfl] at htarget
      exact ⟨fun slot => (hall slot).1, htarget⟩
    · rintro ⟨hold, hnew⟩ slot
      refine ⟨hold slot, ?_⟩
      split
      · exact hnew
      · rfl

/-- **Clauses are faultless** after a run of steps if the leaves of the steps are, and only then. -/
theorem faultless_steps {r r' : Request} {steps : List Step} (h : r.steps steps = .ok r')
    (native : steps.all Step.isNative = true) :
    (∀ slot, Clause.faultsAll (r'.conditions.clauses slot) = [])
      ↔ (∀ slot, Clause.faultsAll (r.conditions.clauses slot) = [])
        ∧ (steps.flatMap Step.leaves).flatMap Leaf.faults = [] := by
  induction steps generalizing r with
  | nil =>
    cases h
    simp
  | cons s rest ih =>
    obtain ⟨r₁, hfirst, hrest⟩ := bind_eq_ok.1 h
    rw [List.all_cons, Bool.and_eq_true] at native
    rw [ih hrest native.2, faultless_step hfirst native.1, List.flatMap_cons, List.flatMap_append,
      List.append_eq_nil_iff, and_assoc]

/-- **A request can be compiled** if its clauses are faultless, and only then. -/
theorem exists_compile_iff {r : Request} (declared : r.Declared) (operation : Operation)
    (item : Item) (updates : List Update.Call) :
    (∃ p, r.compile operation item updates = .ok p)
      ↔ ∀ slot, Clause.faultsAll (r.conditions.clauses slot) = [] := by
  obtain ⟨p, hp⟩ := r.compile_eq operation item updates
  have hok : (∃ p, r.compile operation item updates = .ok p) ↔ r.offences updates = [] := by
    rw [hp]
    simp only [report_eq_ok]
    exact ⟨fun ⟨_, h, _⟩ => h, fun h => ⟨p, h, rfl⟩⟩
  -- changes have no faults, so only the clauses of the slots are left
  rw [hok, offences, offencesAll_changes, List.append_nil, List.flatMap_eq_nil_iff]
  constructor
  · intro h slot
    have hslot := h slot (by cases slot <;> decide)
    rw [offencesAll_slot updates declared slot] at hslot
    exact List.map_eq_nil_iff.1 hslot
  · intro h slot _
    rw [offencesAll_slot updates declared slot, h slot]
    rfl

section

variable {config : Config} {table : String} {steps steps' : List Step} {r r' : Request}

/-- Steps that are alike lead to the same options and to the same table. -/
theorem same_of_alike (made : (config.table table).steps steps = .ok r)
    (made' : (config.table table).steps steps' = .ok r') (alike : Step.Alike steps steps') :
    r'.options = r.options ∧ r'.table = r.table
      ∧ r'.conditions.placeholders = r.conditions.placeholders := by
  obtain ⟨hoptions, htable⟩ := options_steps made
  obtain ⟨hoptions', htable'⟩ := options_steps made'
  refine ⟨?_, htable'.trans htable.symm, ?_⟩
  · rw [hoptions, hoptions', alike.settings]
  · rw [steps_placeholders made, steps_placeholders made', Step.flatMap_mentions,
      Step.flatMap_mentions, alike.leaves]

/-- What a command needs of the keys depends on nothing but options. -/
theorem checkKeys_congr (hoptions : r'.options = r.options) (htable : r'.table = r.table)
    (command : Command) : r'.checkKeys command = r.checkKeys command := by
  obtain ⟨tablePrefix, name, options, conditions⟩ := r
  obtain ⟨tablePrefix', name', options', conditions'⟩ := r'
  cases hoptions
  cases htable
  cases command with
  | getItem key => cases key <;> rfl
  | _ => rfl

/-- A lookup stays a lookup, and a scan a scan. -/
theorem operationOf_congr (hoptions : r'.options = r.options)
    (hplaceholders : r'.conditions.placeholders = r.conditions.placeholders) (command : Command) :
    r'.operationOf command = r.operationOf command := by
  have hconstrains : r'.constrainsKey = r.constrainsKey := by
    unfold constrainsKey
    rw [hoptions, hplaceholders]
  cases command with
  | get =>
    show r'.retrieval = r.retrieval
    rw [retrieval, retrieval, hconstrains]
  | _ => rfl

/-- Naming a key takes no declaration away. -/
theorem Declared.addressed (declared : r.Declared) (command : Command) :
    (r.addressed command).Declared := by
  unfold Declared
  rw [(r.addressed_eq command).1]
  exact declared

/-- **Steps that are alike declare the same**: where a command can be prepared after the ones, it
can be prepared after the others. -/
theorem prepare_alike (made : (config.table table).steps steps = .ok r)
    (native : steps.all Step.isNative = true)
    (made' : (config.table table).steps steps' = .ok r')
    (native' : steps'.all Step.isNative = true) (alike : Step.Alike steps steps')
    {command : Command} (single : command.isBatch = false) {p : Prepared}
    (h : r.prepare command = .ok p) :
    ∃ p', r'.prepare command = .ok p' ∧ p'.operation = p.operation
      ∧ p'.parameters.expressionAttributeNames = p.parameters.expressionAttributeNames
      ∧ p'.parameters.expressionAttributeValues = p.parameters.expressionAttributeValues := by
  obtain ⟨hoptions, htable, hplaceholders⟩ := same_of_alike made made' alike
  have hoperation := operationOf_congr hoptions hplaceholders command
  have compiled := prepare_compiled h single
  rw [prepare_eq r single] at h
  obtain ⟨_, hchecked, h⟩ := bind_eq_ok.1 h
  obtain ⟨parameters, hparameters, rfl⟩ := map_eq_ok.1 h
  -- the clauses are faultless because the leaves are
  have declared : r.Declared := (declared_table config table).steps made native
  have declared' : r'.Declared := (declared_table config table).steps made' native'
  have hfaultless := (exists_compile_iff (declared.addressed command) _ _ _).1 ⟨_, hparameters⟩
  rw [(r.addressed_eq command).1] at hfaultless
  have hleaves := (faultless_steps made native).1 hfaultless
  rw [alike.leaves] at hleaves
  have hfaultless' := (faultless_steps made' native').2 hleaves
  rw [← (r'.addressed_eq command).1] at hfaultless'
  obtain ⟨parameters', hparameters'⟩ :=
    (exists_compile_iff (declared'.addressed command) (r'.operationOf command) command.item
      command.updates).2 hfaultless'
  have hprepared : r'.prepare command = .ok ⟨r'.operationOf command, parameters'⟩ := by
    rw [prepare_eq r' single, checkKeys_congr hoptions htable, hchecked, ok_bind, hparameters']
    rfl
  have compiled' := prepare_compiled hprepared single
  -- both tables are those after the same mentions
  have hfinal : r'.finalTable command.updates = r.finalTable command.updates := by
    rw [finalTable_after made, finalTable_after made', mentions, mentions, Step.flatMap_mentions,
      Step.flatMap_mentions, alike.leaves, hoptions]
  refine ⟨_, hprepared, hoperation, ?_, ?_⟩
  · rw [compiled'.names, compiled.names, hfinal]
  · rw [compiled'.values, compiled.values, hfinal]

end

/-- **Keys are numbered by first use**, across the whole request: calls on all slots come first, in
the order in which they are made and depth first, then what the command says of the update, then the
columns to return. Calls that are made on another slot, with another connector, negated or in other
groups mention the same, so the same is declared after them. -/
theorem numbered_by_first_use {config : Config} {table : String} {steps : List Step} {r : Request}
    (made : (config.table table).steps steps = .ok r) (native : steps.all Step.isNative = true) :
    (∀ command p, InRange (mentions steps command.updates r.options.columns) →
        command.isBatch = false → r.prepare command = .ok p →
        p.parameters.expressionAttributeNames
            = KeySupply.numbered nameSigil
                (columnsOf (mentions steps command.updates r.options.columns)).eraseDups
          ∧ p.parameters.expressionAttributeValues
            = (KeySupply.numbered valueSigil
                (valuesOf (mentions steps command.updates r.options.columns)).eraseDups).mapValues
                Value.toAttribute)
      ∧ ∀ steps' r', Step.Alike steps steps' → (config.table table).steps steps' = .ok r' →
        steps'.all Step.isNative = true → ∀ command p, command.isBatch = false →
          r.prepare command = .ok p →
            ∃ p', r'.prepare command = .ok p' ∧ p'.operation = p.operation
              ∧ p'.parameters.expressionAttributeNames = p.parameters.expressionAttributeNames
              ∧ p'.parameters.expressionAttributeValues
                = p.parameters.expressionAttributeValues := by
  refine ⟨fun command p range single h => ?_,
    fun steps' r' alike made' native' command p single h =>
      prepare_alike made native made' native' alike single h⟩
  have compiled := prepare_compiled h single
  have keyed := made_keyed made native range
  rw [compiled.names, compiled.values, keyed.table, sentValues_ofMentions]
  exact ⟨rfl, rfl⟩

/-- Calls on two slots, with a group, a negation and a shorthand. -/
def scatteredSteps : List Step :=
  [.add .filter [.compare .and "Views" (.operator ">" (.number "1"))],
    .set (.select ["Title", "Views"]),
    .add .condition [.group .and [.compare .and "Tags" (.equals (.number "1")),
      .membership .or "Forum" [.string "S3", .number "1"] true]],
    .addNamed "orKeyConditionBetween" (.range "Forum" (.string "A") (.string "S3"))]

/-- The same calls on one slot, in other groups. -/
def gatheredSteps : List Step :=
  [.set (.select ["Title", "Views"]),
    .add .filter [.group .or [.compare .or "Views" (.operator ">" (.number "1")),
        .compare .and "Tags" (.equals (.number "1"))],
      .membership .and "Forum" [.string "S3", .number "1"] false,
      .group .or [.group .and [.between .and "Forum" (.string "A") (.string "S3") true]]]]

theorem numbered_by_first_use_gathered :
    ∃ r r' p p', (Config.table {} "Thread").steps scatteredSteps = .ok r
      ∧ (Config.table {} "Thread").steps gatheredSteps = .ok r'
      ∧ r.prepare .scan = .ok p ∧ r'.prepare .scan = .ok p'
      ∧ p.parameters.expressionAttributeNames
        = ⟨[("#1", "Views"), ("#2", "Tags"), ("#3", "Forum"), ("#4", "Title")]⟩
      ∧ p'.parameters.expressionAttributeNames = p.parameters.expressionAttributeNames
      ∧ p'.parameters.expressionAttributeValues = p.parameters.expressionAttributeValues := by
  have made : (Config.table {} "Thread").steps scatteredSteps = .ok _ := rfl
  have made' : (Config.table {} "Thread").steps gatheredSteps = .ok _ := rfl
  have numbered := numbered_by_first_use made (by decide)
  have alike : Step.Alike scatteredSteps gatheredSteps := ⟨rfl, rfl⟩
  obtain ⟨p', hp', -, hnames, hvalues⟩ :=
    numbered.2 gatheredSteps _ alike made' (by decide) .scan _ rfl rfl
  exact ⟨_, _, _, p', made, made', rfl, hp',
    (numbered.1 .scan _ ⟨by decide, by decide⟩ rfl rfl).1.trans rfl, hnames, hvalues⟩

end Request

end TableQuery
