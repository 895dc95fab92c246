import TableQuery.Proofs.Compilation
import TableQuery.Proofs.Declared
import TableQuery.Proofs.Expression.Update

/-!
# Requests that are refused

A clause that has no expression is kept when it is added, and found when the request is compiled.
Which clause is reported then is told here without writing anything: all predicates are listed, group
by group from left to right (`Clause.partsAll`), and the first that is bad in itself
(`Predicate.refusal?`) decides.

Two ways to fail are left over in writing, a key that is not declared and a function without its
value. Neither is met in what a request builds (`Declared`, `Predicate.Built`).

* **`built_clauses`** — functions have their values and groups have clauses, in whatever calls add.
* **`refusals_eq`** — in such clauses the faults are those of the predicates that are bad.
* **`compile_eq`** — compiling reports the first offence of clauses and changes, or else succeeds.
* **`requests_judged`** — a request is refused if and only if there is a bad predicate, and the first
  is reported.
-/

namespace TableQuery

section

variable {ν ω : Type}

/-! ## Predicates at every depth -/

mutual

/-- The predicates in the groups of a predicate, at every depth, each group before its clauses. -/
def Predicate.inner : Predicate ν ω → List (Predicate ν ω)
  | .basic .. => []
  | .function .. => []
  | .between .. => []
  | .membership .. => []
  | .nested clauses => Clause.partsAll clauses
  | .unsupported .. => []

/-- The predicates of clauses at every depth, from left to right. -/
def Clause.partsAll : List (Clause ν ω) → List (Predicate ν ω)
  | [] => []
  | (_, p) :: rest => p :: p.inner ++ Clause.partsAll rest

end

/-- The predicates of two lists of clauses are those of the first, then those of the second. -/
@[simp] theorem Clause.partsAll_append (as bs : List (Clause ν ω)) :
    Clause.partsAll (as ++ bs) = Clause.partsAll as ++ Clause.partsAll bs := by
  induction as with
  | nil => rfl
  | cons c rest ih => simp [Clause.partsAll, ih]

/-- Why a predicate is bad in itself; nothing if it is not. -/
def Predicate.refusal? : Predicate ν ω → Option RequestError
  | .membership _ [] _ => some (.unsupportedPredicate "in" .noMembers)
  | .unsupported token reason => some (.unsupportedPredicate token reason)
  | _ => none

/-- A predicate is bad in itself if it is unsupported, or a membership in nothing. -/
theorem Predicate.refusal?_eq_some_iff {p : Predicate ν ω} :
    (∃ e, p.refusal? = some e)
      ↔ (∃ token reason, p = .unsupported token reason)
        ∨ ∃ column negated, p = .membership column [] negated := by
  cases p with
  | membership column values negated => cases values <;> simp [refusal?]
  | _ => simp [refusal?]

/-! ## What calls build -/

/-- A function has a value if and only if it takes one, and a group has clauses. -/
def Predicate.Built : Predicate ν ω → Prop
  | .function f _ value _ => value.isSome = true ↔ f.arity = 1
  | .nested clauses => clauses ≠ []
  | _ => True

def Clause.BuiltAll (cs : List (Clause ν ω)) : Prop := ∀ p ∈ Clause.partsAll cs, p.Built

/-- Clauses of two lists are built well if those of each are. -/
theorem Clause.BuiltAll.append {as bs : List (Clause ν ω)} (ha : BuiltAll as) (hb : BuiltAll bs) :
    BuiltAll (as ++ bs) := by
  intro p hp
  rw [partsAll_append] at hp
  exact (List.mem_append.1 hp).elim (ha p) (hb p)

theorem Clause.builtAll_nil : BuiltAll ([] : List (Clause ν ω)) := nofun

/-- A clause that is no group. -/
theorem Clause.builtAll_single {connector : Connector} {p : Predicate ν ω} (hinner : p.inner = [])
    (h : p.Built) : BuiltAll [(connector, p)] := by
  intro q hq
  rw [partsAll, partsAll, hinner, List.append_nil] at hq
  exact List.mem_singleton.1 hq ▸ h

/-- A group is only kept if it has clauses. -/
theorem Call.builtAll_groupClauses (connector : Connector) {cs : List (Clause ν ω)}
    (h : Clause.BuiltAll cs) : Clause.BuiltAll (groupClauses connector cs) := by
  cases cs with
  | nil => exact Clause.builtAll_nil
  | cons c rest =>
    intro p hp
    have hp : p ∈ .nested (c :: rest) :: (Clause.partsAll (c :: rest) ++ []) := hp
    rw [List.append_nil] at hp
    rcases List.mem_cons.1 hp with rfl | hp
    · exact List.cons_ne_nil _ _
    · exact h p hp

namespace Operand

/-- Applied to a value, a function takes one; otherwise the clause has no expression. -/
theorem built_applied (column : ν) (token : String) (value : ω) :
    (applied column token value).inner = [] ∧ (applied column token value).Built := by
  unfold applied
  split
  · exact ⟨rfl, trivial⟩
  · split
    · rename_i f _
      by_cases h : f.arity = 0
      · rw [if_pos h]
        exact ⟨rfl, trivial⟩
      · rw [if_neg h]
        have hone : f.arity = 1 := f.arity_eq_zero_or_one.resolve_left h
        exact ⟨rfl, fun _ => hone, fun _ => rfl⟩
    · exact ⟨rfl, trivial⟩

/-- Alone, a function takes no value; otherwise the clause has no expression. -/
theorem built_alone {column : ν} {token : String} {p : Predicate ν ω}
    (h : alone? column token = some p) : p.inner = [] ∧ p.Built := by
  unfold alone? at h
  split at h
  · cases h
    exact ⟨rfl, trivial⟩
  · obtain ⟨f, -, rfl⟩ := Option.map_eq_some_iff.1 h
    by_cases hf : f.arity = 0
    · rw [if_pos hf]
      refine ⟨rfl, fun hsome => ?_, fun hone => ?_⟩
      · cases hsome
      · omega
    · rw [if_neg hf]
      exact ⟨rfl, trivial⟩

/-- A comparison is no group, and its function has a value if and only if it takes one. -/
theorem built_predicate (t : Placeholders) (column : String) (operand : Operand) :
    (operand.predicate t column).1.inner = [] ∧ (operand.predicate t column).1.Built := by
  cases operand with
  | equals value => exact ⟨rfl, trivial⟩
  | bare token =>
    unfold predicate
    cases h : (alone? (t.nameKey column).1 token : Option KeyedPredicate) with
    | none =>
      simp only [h]
      exact ⟨rfl, trivial⟩
    | some p =>
      simp only [h]
      exact built_alone h
  | operator token value => exact built_applied _ token _

end Operand

namespace Call

/-- A comparison of a size is no group, and has the value that it is compared with. -/
theorem built_sizePredicate (t : Placeholders) (column operator : String) (value : Value) :
    (sizePredicate t column operator value).1.inner = []
      ∧ (sizePredicate t column operator value).1.Built := by
  unfold sizePredicate
  cases Comparison.ofToken? operator with
  | none => exact ⟨rfl, trivial⟩
  | some c => exact ⟨rfl, fun _ => rfl, fun _ => rfl⟩

mutual

/-- **Whatever calls add** is built: functions have their values, and groups have clauses. -/
theorem built_clauses (t : Placeholders) : ∀ call : Call, call.isNative = true →
    Clause.BuiltAll (call.clauses t).1
  | .compare _ column operand, _ =>
    Clause.builtAll_single (operand.built_predicate t column).1 (operand.built_predicate t column).2
  | .size _ column operator value, _ =>
    Clause.builtAll_single (built_sizePredicate t column operator value).1
      (built_sizePredicate t column operator value).2
  | .membership .., _ => Clause.builtAll_single rfl trivial
  | .between .., _ => Clause.builtAll_single rfl trivial
  | .group connector calls, native =>
    builtAll_groupClauses connector (built_clausesOfAll t calls native)
  | .graft .., native => nomatch native

/-- What several calls add is built well. -/
theorem built_clausesOfAll (t : Placeholders) : ∀ calls : List Call, areNative calls = true →
    Clause.BuiltAll (clausesOfAll t calls).1
  | [], _ => Clause.builtAll_nil
  | call :: rest, native => by
    rw [areNative, Bool.and_eq_true] at native
    exact (built_clauses t call native.1).append (built_clausesOfAll _ rest native.2)

end

end Call

/-! ## Faults and bad predicates -/

/-- The bad predicates among clauses, as they are reported. -/
def Clause.refusals (cs : List (Clause ν ω)) : List RequestError :=
  (Clause.partsAll cs).filterMap Predicate.refusal?

mutual

/-- The faults of a predicate that is built well are the bad ones among it and those in its groups.
-/
theorem Predicate.refusals_eq : ∀ p : Predicate ν ω, p.Built → (∀ q ∈ p.inner, q.Built) →
    p.faults.map faultError = (p :: p.inner).filterMap Predicate.refusal?
  | .basic .., _, _ => rfl
  | .function _ _ (some _) _, _, _ => rfl
  | .function f _ none _, built, _ => by
    -- a function without a value takes none
    have hzero : f.arity = 0 := f.arity_eq_zero_or_one.resolve_right fun hone => by
      cases built.2 hone
    rw [Predicate.faults, if_pos hzero]
    rfl
  | .between .., _, _ => rfl
  | .membership _ [] _, _, _ => rfl
  | .membership _ (_ :: _) _, _, _ => rfl
  | .nested clauses, _, inner => Clause.refusals_eq clauses inner
  | .unsupported .., _, _ => rfl

/-- **The faults of what is built** are those of the bad predicates, in the same order. -/
theorem Clause.refusals_eq : ∀ cs : List (Clause ν ω), Clause.BuiltAll cs →
    (Clause.faultsAll cs).map faultError = Clause.refusals cs
  | [], _ => rfl
  | (_, p) :: rest, built => by
    have hp : p.Built := built p (List.mem_cons_self)
    have hinner : ∀ q ∈ p.inner, q.Built := fun q hq =>
      built q (List.mem_cons_of_mem _ (List.mem_append_left _ hq))
    have hrest : Clause.BuiltAll rest := fun q hq =>
      built q (List.mem_cons_of_mem _ (List.mem_append_right _ hq))
    rw [Clause.faultsAll, List.map_append, Predicate.refusals_eq p hp hinner,
      Clause.refusals_eq rest hrest, Clause.refusals, Clause.refusals, Clause.partsAll,
      List.filterMap_append]

end

end

/-! ## What compiling reports -/

namespace Condition

/-- The expression of a slot is the text of its clauses, or their first offence; an empty slot has
none. -/
theorem expression_eq (t : Placeholders) (cs : List KeyedClause) :
    expression t cs = report (Clause.offencesAll t cs)
      (if cs.isEmpty then none else some (Lexeme.textOf (Clause.lexemesAll cs))) := by
  unfold expression
  cases cs with
  | nil => rfl
  | cons c rest =>
    rw [writeClauses_eq, report_map]
    rfl

end Condition

namespace Request

/-- Everything for which a request cannot be compiled, in the order in which it is met. -/
def offences (r : Request) (updates : List Update.Call) : List RequestError :=
  Slot.all.flatMap (fun slot => Clause.offencesAll (r.finalTable updates) (r.conditions.clauses slot))
    ++ Update.offencesAll (r.finalTable updates) (r.record updates).1

/-- **Compiling reports the first offence**, or else succeeds, for any request. -/
theorem compile_eq (r : Request) (operation : Operation) (item : Item)
    (updates : List Update.Call) :
    ∃ p, r.compile operation item updates = report (r.offences updates) p := by
  have horder : r.offences updates
      = Clause.offencesAll (r.finalTable updates) r.conditions.filter
        ++ (Clause.offencesAll (r.finalTable updates) r.conditions.condition
          ++ (Clause.offencesAll (r.finalTable updates) r.conditions.keyCondition
            ++ Update.offencesAll (r.finalTable updates) (r.record updates).1)) := by
    simp [offences, Slot.all, Conditions.clauses]
  rw [horder]
  unfold compile parameters recorded
  simp only [Condition.expression_eq, Update.expression_eq]
  exact ⟨_, report_bind (report_bind (report_bind report_bind_pure))⟩

/-- What a request has built is built well. -/
def Built (r : Request) : Prop := ∀ slot, Clause.BuiltAll (r.conditions.clauses slot)

/-- A step keeps what a request has built, and adds to one slot what is built well. -/
theorem Built.step {r r' : Request} {s : Step} (hr : r.Built) (h : r.step s = .ok r')
    (native : s.isNative = true) : r'.Built := by
  intro slot
  obtain ⟨-, hc⟩ | ⟨target, calls, hadded, hc⟩ := step_inv h
  · rw [hc]
    exact hr slot
  · have hcalls := Step.areNative_of_added? native hadded
    rw [hc, Conditions.clauses_add]
    refine (hr slot).append ?_
    -- one slot has new clauses, the others are as they were
    split
    · exact Call.built_clausesOfAll _ calls hcalls
    · exact Clause.builtAll_nil

/-- **A run of steps** builds every function with its value and no group without clauses. -/
theorem Built.steps {r r' : Request} {steps : List Step} (hr : r.Built)
    (h : r.steps steps = .ok r') (native : steps.all Step.isNative = true) : r'.Built :=
  steps_invariant Built.step hr h native

theorem built_table (config : Config) (table : String) : (config.table table).Built := by
  intro slot
  cases slot <;> exact Clause.builtAll_nil

/-! ## Declared keys -/

section

variable {r : Request} (updates : List Update.Call)

/-- The table that is written against declares all that the request has declared before. -/
theorem extends_finalTable (r : Request) :
    r.conditions.placeholders.Extends (r.finalTable updates) := by
  have hrecord := Placeholders.extends_after r.conditions.placeholders
    (updates.flatMap Update.Call.mentions)
  have hprojection := Placeholders.extends_after (r.record updates).2
    (r.options.columns.map .column)
  rw [← Update.record_after] at hrecord
  rw [← Placeholders.projection_after] at hprojection
  exact hrecord.trans hprojection

/-- The clauses of a slot have no offences but their faults. -/
theorem offencesAll_slot (declared : r.Declared) (slot : Slot) :
    Clause.offencesAll (r.finalTable updates) (r.conditions.clauses slot)
      = (Clause.faultsAll (r.conditions.clauses slot)).map faultError :=
  Clause.offencesAll_of_declared _ ((declared slot).mono (r.extends_finalTable updates))

/-- The changes of an update have none. -/
theorem offencesAll_changes (r : Request) :
    Update.offencesAll (r.finalTable updates) (r.record updates).1 = [] := by
  have hdeclared := Update.record_declared r.conditions.placeholders updates
  have hprojection := Placeholders.extends_after (r.record updates).2
    (r.options.columns.map .column)
  rw [← Placeholders.projection_after] at hprojection
  exact Update.offencesAll_of_declared (Placeholders.Declares.mono hdeclared hprojection)

/-- The predicates of a request: slot by slot, at every depth, from left to right. -/
def predicates (r : Request) : List KeyedPredicate :=
  Slot.all.flatMap fun slot => Clause.partsAll (r.conditions.clauses slot)

/-- In a request that is built, nothing but bad predicates is reported. -/
theorem offences_eq (declared : r.Declared) (built : r.Built) :
    r.offences updates = r.predicates.filterMap Predicate.refusal? := by
  unfold offences predicates
  rw [offencesAll_changes, List.append_nil, List.filterMap_flatMap]
  refine congrArg (Slot.all.flatMap ·) (funext fun slot => ?_)
  rw [offencesAll_slot updates declared slot, Clause.refusals_eq _ (built slot)]
  rfl

/-! ## The judgement -/

/-- The predicates of a request are those of all of its slots. -/
theorem mem_predicates {p : KeyedPredicate} :
    p ∈ r.predicates ↔ ∃ slot, p ∈ Clause.partsAll (r.conditions.clauses slot) := by
  unfold predicates
  rw [List.mem_flatMap]
  constructor
  · exact fun ⟨slot, _, h⟩ => ⟨slot, h⟩
  · exact fun ⟨slot, h⟩ => ⟨slot, by cases slot <;> decide, h⟩

end

/-- How a request is judged when it is compiled. -/
structure Judged (r : Request) : Prop where
  /-- The error is that of the first bad predicate, slot by slot, group by group. -/
  first : ∀ operation item updates e, r.compile operation item updates = .error e
    ↔ r.predicates.findSome? Predicate.refusal? = some e
  /-- There is an error if and only if some predicate at some depth has no expression. -/
  refused : ∀ operation item updates, (∃ e, r.compile operation item updates = .error e)
    ↔ ∃ slot, ∃ p ∈ Clause.partsAll (r.conditions.clauses slot),
        (∃ token reason, p = .unsupported token reason)
          ∨ ∃ column negated, p = .membership column [] negated
  /-- The commands that are no batches are judged so, once their keys are checked. -/
  commands : ∀ command, command.isBatch = false → r.checkKeys command = .ok () → ∀ e,
    r.prepare command = .error e ↔ r.predicates.findSome? Predicate.refusal? = some e
  /-- Every key is declared, in the clauses of a slot and in the changes of an update. -/
  neverDangling : ∀ updates key,
    (∀ slot, Condition.expression (r.finalTable updates) (r.conditions.clauses slot)
        ≠ .error (.danglingPlaceholder key))
      ∧ (∀ operation item, r.compile operation item updates ≠ .error (.danglingPlaceholder key))
      ∧ ∃ update, Update.expression (r.finalTable updates) (r.record updates).1 = .ok update
  /-- Functions have a value if and only if they take one, so none is written that lacks it. -/
  functions : ∀ slot f column value comparison,
    .function f column value comparison ∈ Clause.partsAll (r.conditions.clauses slot) →
      (value.isSome = true ↔ f.arity = 1) ∧ (value = none → f.arity = 0)
  /-- No group is empty. -/
  groups : ∀ slot clauses, .nested clauses ∈ Clause.partsAll (r.conditions.clauses slot) →
    clauses ≠ []

/-- A bad predicate is never reported as a key that is not declared. -/
theorem findSome?_refusal_ne_dangling (ps : List KeyedPredicate) (key : String) :
    ps.findSome? Predicate.refusal? ≠ some (.danglingPlaceholder key) := by
  intro h
  obtain ⟨p, -, hp⟩ := List.exists_of_findSome?_eq_some h
  cases p with
  | membership column values negated => cases values <;> cases hp
  | _ => cases hp

section

variable {r : Request} (declared : r.Declared) (built : r.Built)

include declared built

/-- Compiling a request that is built well reports the first bad predicate. -/
theorem compile_eq_error (operation : Operation) (item : Item) (updates : List Update.Call)
    (e : RequestError) :
    r.compile operation item updates = .error e
      ↔ r.predicates.findSome? Predicate.refusal? = some e := by
  -- all that compiling can report are offences, and in such a request these are its bad predicates
  obtain ⟨p, hp⟩ := r.compile_eq operation item updates
  rw [hp, report_eq_error, offences_eq updates declared built, List.head?_filterMap]

/-- The first bad predicate is there if there is any. -/
theorem exists_compile_eq_error (operation : Operation) (item : Item)
    (updates : List Update.Call) :
    (∃ e, r.compile operation item updates = .error e)
      ↔ ∃ slot, ∃ p ∈ Clause.partsAll (r.conditions.clauses slot), ∃ e, p.refusal? = some e := by
  have hexists : (∃ e, r.predicates.findSome? Predicate.refusal? = some e)
      ↔ ∃ p ∈ r.predicates, ∃ e, p.refusal? = some e := by
    rw [← Option.isSome_iff_exists, List.findSome?_isSome_iff]
    simp only [Option.isSome_iff_exists]
  simp only [compile_eq_error declared built operation item updates, hexists, mem_predicates]
  constructor
  · rintro ⟨p, ⟨slot, hp⟩, hbad⟩
    exact ⟨slot, p, hp, hbad⟩
  · rintro ⟨slot, p, hp, hbad⟩
    exact ⟨p, ⟨slot, hp⟩, hbad⟩

/-- Commands are refused for the same reasons: the key that a command names does not touch the
clauses. -/
theorem prepare_eq_error {command : Command} (single : command.isBatch = false)
    (checked : r.checkKeys command = .ok ()) (e : RequestError) :
    r.prepare command = .error e ↔ r.predicates.findSome? Predicate.refusal? = some e := by
  obtain ⟨hconditions, -⟩ := r.addressed_eq command
  have declared' : (r.addressed command).Declared := by
    unfold Declared
    rw [hconditions]
    exact declared
  have built' : (r.addressed command).Built := by
    unfold Built
    rw [hconditions]
    exact built
  have hpredicates : (r.addressed command).predicates = r.predicates := by
    unfold predicates
    rw [hconditions]
  have hfirst := compile_eq_error declared' built' (r.operationOf command) command.item
    command.updates e
  rw [prepare_eq r single, checked, ← hpredicates, ← hfirst]
  show Except.map _ _ = _ ↔ _
  -- a compiled request is only put beside its operation
  cases (r.addressed command).compile (r.operationOf command) command.item command.updates with
  | error e' => simp [Except.map]
  | ok p => simp [Except.map]

omit built in
/-- Writing a slot never reports a key, since all keys are declared; what it can report are faults.
-/
theorem expression_ne_dangling (updates : List Update.Call) (slot : Slot) (key : String) :
    Condition.expression (r.finalTable updates) (r.conditions.clauses slot)
      ≠ .error (.danglingPlaceholder key) := by
  rw [Condition.expression_eq, offencesAll_slot updates declared slot, Ne, report_eq_error]
  intro h
  obtain ⟨fault, -, hfault⟩ := List.mem_map.1 (List.mem_of_head? h)
  cases hfault

omit declared in
/-- A function that has no value takes none. -/
theorem arity_of_function {slot : Slot} {f : ConditionFunction} {column : String}
    {value : Option String} {comparison : Comparison}
    (h : .function f column value comparison ∈ Clause.partsAll (r.conditions.clauses slot)) :
    (value.isSome = true ↔ f.arity = 1) ∧ (value = none → f.arity = 0) := by
  have hbuilt : value.isSome = true ↔ f.arity = 1 := built slot _ h
  refine ⟨hbuilt, fun hnone => f.arity_eq_zero_or_one.resolve_right fun hone => ?_⟩
  rw [hnone] at hbuilt
  cases hbuilt.2 hone

end

/-- **Requests are judged by their clauses**, if these were all added by calls. Any number of
columns and values may be mentioned. -/
theorem requests_judged {config : Config} {table : String} {steps : List Step} {r : Request}
    (made : (config.table table).steps steps = .ok r) (native : steps.all Step.isNative = true) :
    r.Judged := by
  have declared : r.Declared := (declared_table config table).steps made native
  have built : r.Built := (built_table config table).steps made native
  have first := compile_eq_error declared built
  refine ⟨first, fun operation item updates => ?_, fun command single checked e => ?_,
    fun updates key => ⟨fun slot => ?_, fun operation item => ?_, ?_⟩,
    fun slot f column value comparison h => ?_, fun slot clauses h => built slot _ h⟩
  · simp only [← Predicate.refusal?_eq_some_iff]
    exact exists_compile_eq_error declared built operation item updates
  · exact prepare_eq_error declared built single checked e
  · exact expression_ne_dangling declared updates slot key
  · rw [Ne, first]
    exact findSome?_refusal_ne_dangling _ key
  · exact ⟨_, by rw [Update.expression_eq, offencesAll_changes]; rfl⟩
  · exact arity_of_function built h

/-- The key condition was given first, but the filter is read before it, and in the filter the group
before what comes after it. -/
def badSteps : List Step :=
  [.add .keyCondition [.membership .and "ForumName" [] false],
    .add .filter
      [.group .and
        [.compare .and "Tags" (.bare "attribute_exists"),
          .group .or [.compare .and "Views" (.bare "<"), .compare .and "Tags" (.bare "contains")]],
        .size .and "Tags" "~" (.number "1")]]

/-- The key condition was given first and is bad, too; what is reported is the comparison in the
inner group of the filter. -/
theorem requests_judged_first :
    ∃ r, (Config.table {} "Thread").steps badSteps = .ok r
      ∧ badSteps.all Step.isNative = true
      ∧ r.Judged
      ∧ r.compile .query ∅ [.increment "Views" (.number "1")]
        = .error (.unsupportedPredicate "<" .comparisonWithoutValue) := by
  have made : (Config.table {} "Thread").steps badSteps = .ok _ := rfl
  have judged := requests_judged made (by decide)
  exact ⟨_, made, by decide, judged, (judged.first _ _ _ _).2 rfl⟩

end Request

end TableQuery
