import TableQuery.Proofs.Expression.Written
import TableQuery.Proofs.Steps
import TableQuery.Proofs.Updates

/-!
# Keys that are declared

Every key in a clause or a change was handed out by the table of the request, so it is declared
there, and later uses of the table take no declaration away. This holds for runs of any length: a
table in which the numbers have run over still declares every key that it has handed out.

* **`extends_after`** — the declared keys stay declared.
* **`clauses_declared`** — the keys in the clauses of a call are declared after the call.
* **`recordAmid_declared`** — so are the keys in the changes of an update.
-/

namespace TableQuery

/-! ## Handing out one key -/

namespace KeySupply

variable {α : Type} [BEq α]

/-- Whatever is asked for, the key that is handed out is declared from then on. -/
theorem key_mem_declare (s : KeySupply) (m : OrderedMap α) (a : α) :
    (s.declare m a).1 ∈ (s.declare m a).2.1.keys := by
  unfold declare
  cases h : m.keyWhere? (· == a) with
  | some key =>
    -- the key was found in the map
    obtain ⟨e, he, rfl⟩ := Option.map_eq_some_iff.1 h
    exact List.mem_map_of_mem (List.mem_of_find?_eq_some he)
  | none => exact OrderedMap.mem_keys_insert.2 (.inl rfl)

/-- Declaring something takes no key away. -/
theorem keys_subset_declare (s : KeySupply) (m : OrderedMap α) (a : α) :
    m.keys ⊆ (s.declare m a).2.1.keys := by
  unfold declare
  cases m.keyWhere? (· == a) with
  | some key => exact List.Subset.refl _
  | none => exact fun key hkey => OrderedMap.mem_keys_insert.2 (.inr hkey)

end KeySupply

namespace Placeholders

theorem declaresName_nameKey (t : Placeholders) (column : String) :
    (t.nameKey column).2.declaresName (t.nameKey column).1 = true :=
  OrderedMap.contains_iff.2 (KeySupply.key_mem_declare _ _ _)

theorem declaresValue_valueKey (t : Placeholders) (value : Value) :
    (t.valueKey value).2.declaresValue (t.valueKey value).1 = true :=
  OrderedMap.contains_iff.2 (KeySupply.key_mem_declare _ _ _)

/-! ## Declarations stay -/

/-- What the one table declares is declared by the other, too. -/
structure Extends (t t' : Placeholders) : Prop where
  name : ∀ key, t.declaresName key = true → t'.declaresName key = true
  value : ∀ key, t.declaresValue key = true → t'.declaresValue key = true

theorem Extends.refl (t : Placeholders) : t.Extends t := ⟨fun _ => id, fun _ => id⟩

theorem Extends.trans {t t' t'' : Placeholders} (h : t.Extends t') (h' : t'.Extends t'') :
    t.Extends t'' :=
  ⟨fun key hkey => h'.name key (h.name key hkey), fun key hkey => h'.value key (h.value key hkey)⟩

/-- Using a column takes no declaration away, of either kind. -/
theorem extends_nameKey (t : Placeholders) (column : String) : t.Extends (t.nameKey column).2 := by
  refine ⟨fun key hkey => ?_, fun _ => id⟩
  rw [declaresName, OrderedMap.contains_iff] at hkey ⊢
  exact KeySupply.keys_subset_declare _ _ _ hkey

/-- Using a value takes no declaration away, of either kind. -/
theorem extends_valueKey (t : Placeholders) (value : Value) : t.Extends (t.valueKey value).2 := by
  refine ⟨fun _ => id, fun key hkey => ?_⟩
  rw [declaresValue, OrderedMap.contains_iff] at hkey ⊢
  exact KeySupply.keys_subset_declare _ _ _ hkey

/-- **Declarations stay**, whatever is mentioned later. -/
theorem extends_after (t : Placeholders) (ms : List Mention) : t.Extends (t.after ms) := by
  induction ms generalizing t with
  | nil => exact .refl t
  | cons m rest ih =>
    have hone : t.Extends (t.mention m) := by
      cases m with
      | column name => exact t.extends_nameKey name
      | value v => exact t.extends_valueKey v
    exact hone.trans (ih _)

/-- Keys that are declared stay declared in every table that extends the first one. -/
theorem Declares.mono {t t' : Placeholders} {cs vs : List String} (h : t.Declares cs vs)
    (hext : t.Extends t') : t'.Declares cs vs :=
  h.imp hext.name hext.value

/-- What refers to one column is declared if the column and its values are. -/
theorem declares_column {t : Placeholders} {column : String} {vs : List String}
    (hcolumn : t.declaresName column = true) (hvalues : ∀ v ∈ vs, t.declaresValue v = true) :
    t.Declares [column] vs :=
  ⟨fun _ hc => List.mem_singleton.1 hc ▸ hcolumn, hvalues⟩

/-- Of values that are used one after the other, the last key is new, and the others stay. -/
theorem declaresValue_valueKeys (t : Placeholders) (values : List Value) :
    ∀ key ∈ (t.valueKeys values).1, (t.valueKeys values).2.declaresValue key = true := by
  induction values generalizing t with
  | nil => exact nofun
  | cons value rest ih =>
    intro key hkey
    rw [valueKeys, List.mem_cons] at hkey
    rcases hkey with rfl | hkey
    · have hext := extends_after (t.valueKey value).2 (rest.map .value)
      rw [← valueKeys_after] at hext
      exact hext.value _ (t.declaresValue_valueKey value)
    · exact ih _ key hkey

end Placeholders

open Placeholders

/-! ## Clauses -/

namespace Operand

variable {ν ω : Type} {P : ν → Prop} {Q : ω → Prop}

/-- Predicates of a token refer to nothing but the column and the value. -/
theorem refers_applied {column : ν} {value : ω} (hcolumn : P column) (hvalue : Q value)
    (token : String) :
    Refers P Q (applied column token value).columns (applied column token value).values := by
  have hboth : Refers P Q [column] [value] :=
    ⟨fun c hc => List.mem_singleton.1 hc ▸ hcolumn, fun v hv => List.mem_singleton.1 hv ▸ hvalue⟩
  unfold applied
  split
  · exact hboth
  · split
    · split
      · exact .nil
      · exact hboth
    · exact .nil

/-- The clause of a token alone refers to its column at most. -/
theorem refers_alone {column : ν} {token : String} {p : Predicate ν ω} (hcolumn : P column)
    (h : alone? column token = some p) : Refers P Q p.columns p.values := by
  have hone : Refers P Q [column] [] :=
    ⟨fun c hc => List.mem_singleton.1 hc ▸ hcolumn, nofun⟩
  unfold alone? at h
  split at h
  · cases h
    exact .nil
  · obtain ⟨f, -, rfl⟩ := Option.map_eq_some_iff.1 h
    split
    · exact hone
    · exact .nil

/-- The keys of an equality are declared after it; the key of the column was handed out before. -/
theorem equality_declared {t : Placeholders} {column : String}
    (hcolumn : t.declaresName column = true) (value : Value) :
    (equality t column value).2.Declares (equality t column value).1.columns
      (equality t column value).1.values :=
  declares_column ((t.extends_valueKey value).name _ hcolumn)
    fun _ hv => List.mem_singleton.1 hv ▸ t.declaresValue_valueKey value

/-- The keys of a comparison are declared after it, in whatever spelling. -/
theorem predicate_declared (t : Placeholders) (column : String) (operand : Operand) :
    (operand.predicate t column).2.Declares (operand.predicate t column).1.columns
      (operand.predicate t column).1.values := by
  have hcolumn := t.declaresName_nameKey column
  cases operand with
  | equals value => exact equality_declared hcolumn value
  | bare token =>
    unfold predicate
    cases h : (alone? (t.nameKey column).1 token : Option KeyedPredicate) with
    | none =>
      simp only [h]
      exact equality_declared hcolumn (.string token)
    | some p =>
      simp only [h]
      -- no value is used here, so the table is the one after the column
      exact refers_alone hcolumn h
  | operator token value =>
    refine refers_applied ?_ ?_ token
    · exact ((t.nameKey column).2.extends_valueKey value).name _ hcolumn
    · exact (t.nameKey column).2.declaresValue_valueKey value

end Operand

namespace Call

/-- The keys of a comparison of the size are declared after it. A token that is no operator leaves
declarations that nothing refers to. -/
theorem sizePredicate_declared (t : Placeholders) (column operator : String) (value : Value) :
    (sizePredicate t column operator value).2.Declares
      (sizePredicate t column operator value).1.columns
      (sizePredicate t column operator value).1.values := by
  have hcolumn := t.declaresName_nameKey column
  have hvalue := (t.nameKey column).2.declaresValue_valueKey value
  unfold sizePredicate
  cases Comparison.ofToken? operator with
  | none => exact .nil
  | some c =>
    exact declares_column (((t.nameKey column).2.extends_valueKey value).name _ hcolumn)
      fun _ hv => List.mem_singleton.1 hv ▸ hvalue

/-- The keys of a membership are declared after it, those of all of its values included. -/
theorem membershipPredicate_declared (t : Placeholders) (column : String) (values : List Value)
    (negated : Bool) :
    (membershipPredicate t column values negated).2.Declares
      (membershipPredicate t column values negated).1.columns
      (membershipPredicate t column values negated).1.values := by
  have hext := extends_after (t.nameKey column).2 (values.map .value)
  rw [← valueKeys_after] at hext
  exact declares_column (hext.name _ (t.declaresName_nameKey column))
    (declaresValue_valueKeys _ values)

/-- The keys of a range are declared after it, those of both bounds. -/
theorem betweenPredicate_declared (t : Placeholders) (column : String) (low high : Value)
    (negated : Bool) :
    (betweenPredicate t column low high negated).2.Declares
      (betweenPredicate t column low high negated).1.columns
      (betweenPredicate t column low high negated).1.values := by
  have hcolumn := t.declaresName_nameKey column
  have hlow := (t.nameKey column).2.declaresValue_valueKey low
  have hhigh := ((t.nameKey column).2.valueKey low).2.declaresValue_valueKey high
  have hext₁ := (t.nameKey column).2.extends_valueKey low
  have hext₂ := ((t.nameKey column).2.valueKey low).2.extends_valueKey high
  refine declares_column ((hext₁.trans hext₂).name _ hcolumn) fun v hv => ?_
  rcases List.mem_cons.1 hv with rfl | hv
  · -- the lower bound was declared before the upper one was used
    exact hext₂.value _ hlow
  · rcases List.mem_singleton.1 hv with rfl
    exact hhigh

theorem declares_single {t : Placeholders} {p : KeyedPredicate} (connector : Connector)
    (h : t.Declares p.columns p.values) :
    t.Declares (Clause.columnsAll [(connector, p)]) (Clause.valuesAll [(connector, p)]) := by
  simpa [Clause.columnsAll, Clause.valuesAll] using h

mutual

/-- **The keys in the clauses of a call** are declared after the call. -/
theorem clauses_declared (t : Placeholders) : ∀ call : Call, call.isNative = true →
    (call.clauses t).2.Declares (Clause.columnsAll (call.clauses t).1)
      (Clause.valuesAll (call.clauses t).1)
  | .compare connector column operand, _ =>
    declares_single connector (operand.predicate_declared t column)
  | .size connector column operator value, _ =>
    declares_single connector (sizePredicate_declared t column operator value)
  | .membership connector column values negated, _ =>
    declares_single connector (membershipPredicate_declared t column values negated)
  | .between connector column low high negated, _ =>
    declares_single connector (betweenPredicate_declared t column low high negated)
  | .group connector calls, native => by
    rw [clauses, columnsAll_groupClauses, valuesAll_groupClauses]
    exact clausesOfAll_declared t calls native
  | .graft .., native => nomatch native

/-- The keys in the clauses of several calls are declared after the last of them. -/
theorem clausesOfAll_declared (t : Placeholders) : ∀ calls : List Call, areNative calls = true →
    (clausesOfAll t calls).2.Declares (Clause.columnsAll (clausesOfAll t calls).1)
      (Clause.valuesAll (clausesOfAll t calls).1)
  | [], _ => .nil
  | call :: rest, native => by
    rw [areNative, Bool.and_eq_true] at native
    have hrest := clausesOfAll_declared (call.clauses t).2 rest native.2
    -- the calls after the first one take nothing away
    have hext := extends_after (call.clauses t).2 (mentionsAll rest)
    rw [← clausesOfAll_after] at hext
    rw [clausesOfAll, Clause.columnsAll_append, Clause.valuesAll_append]
    exact ((clauses_declared t call native.1).mono hext).append hrest

end

end Call

/-! ## Changes -/

namespace Update

/-- The keys of changes are declared. -/
abbrev DeclaresAll (t : Placeholders) (changes : List KeyedChange) : Prop :=
  t.Declares (changes.map Change.column) (changes.flatMap fun c => c.value?.toList)

/-- The keys of two lists of changes are declared if those of each are. -/
theorem DeclaresAll.append {t : Placeholders} {changes later : List KeyedChange}
    (h : DeclaresAll t changes) (hlater : DeclaresAll t later) : DeclaresAll t (changes ++ later) := by
  unfold DeclaresAll
  rw [List.map_append, List.flatMap_append]
  exact Refers.append h hlater

/-- The keys of an assignment are declared after it; a null is given no key. -/
theorem assignment_declared (t : Placeholders) (column : String) (value : Value) :
    DeclaresAll (assignment t column value).2 [(assignment t column value).1] := by
  have hcolumn := t.declaresName_nameKey column
  unfold assignment
  cases value.isNull with
  | true => exact declares_column hcolumn nofun
  | false =>
    refine declares_column (((t.nameKey column).2.extends_valueKey value).name _ hcolumn) ?_
    exact fun v hv => List.mem_singleton.1 hv ▸ (t.nameKey column).2.declaresValue_valueKey value

/-- The keys of several assignments are declared after the last of them. -/
theorem assignments_declared (t : Placeholders) (es : List (String × Value)) :
    DeclaresAll (assignments t es).2 (assignments t es).1 := by
  induction es generalizing t with
  | nil => exact .nil
  | cons e rest ih =>
    obtain ⟨column, value⟩ := e
    have hrest := ih (assignment t column value).2
    -- the first column and its value stay declared while the others are assigned
    have hext := extends_after (assignment t column value).2
      (rest.flatMap fun e => assignmentMentions e.1 e.2)
    rw [← assignments_after] at hext
    exact DeclaresAll.append ((assignment_declared t column value).mono hext) hrest

/-- A counter and the amount that it is moved by. -/
theorem counter_declared (t : Placeholders) (column : String) (amount : Value) :
    ((t.nameKey column).2.valueKey amount).2.Declares [(t.nameKey column).1]
      [((t.nameKey column).2.valueKey amount).1] :=
  declares_column
    (((t.nameKey column).2.extends_valueKey amount).name _ (t.declaresName_nameKey column))
    fun _ hv => List.mem_singleton.1 hv ▸ (t.nameKey column).2.declaresValue_valueKey amount

/-- The keys in the changes of one call of an update are declared after it. -/
theorem Call.changes_declared (t : Placeholders) (call : Update.Call) :
    DeclaresAll (call.changes t).2 (call.changes t).1 := by
  cases call with
  | assign item => exact assignments_declared t item.entries
  | increment column amount => exact counter_declared t column amount
  | decrement column amount => exact counter_declared t column amount

/-- **The keys in the recorded changes** are declared when all are recorded, also if the table is
used by others meanwhile. -/
theorem recordAmid_declared (t : Placeholders) (events : List Event) :
    DeclaresAll (recordAmid t events).2 (recordAmid t events).1 := by
  induction events generalizing t with
  | nil => exact .nil
  | cons event rest ih =>
    have hfirst : DeclaresAll (event.changes t).2 (event.changes t).1 := by
      cases event with
      | call c => exact Call.changes_declared t c
      | use m => exact .nil
    have hrest := ih (event.changes t).2
    have hext := extends_after (event.changes t).2 (rest.flatMap Event.mentions)
    rw [← recordAmid_after] at hext
    exact DeclaresAll.append (hfirst.mono hext) hrest

/-- The keys in the changes of an update are declared in the table that it leaves. -/
theorem record_declared (t : Placeholders) (calls : List Update.Call) :
    DeclaresAll (record t calls).2 (record t calls).1 := by
  rw [record_eq]
  exact recordAmid_declared t _

end Update

/-! ## Requests -/

namespace Request

/-- The keys in the clauses of every slot are declared in the table of the request. -/
def Declared (r : Request) : Prop :=
  ∀ slot, r.conditions.placeholders.Declares (Clause.columnsAll (r.conditions.clauses slot))
    (Clause.valuesAll (r.conditions.clauses slot))

/-- A step keeps the keys in all slots declared: those of its own clauses are declared by it, and it
takes no declaration away. -/
theorem Declared.step {r r' : Request} {s : Step} (hr : r.Declared) (h : r.step s = .ok r')
    (native : s.isNative = true) : r'.Declared := by
  intro slot
  obtain ⟨-, hc⟩ | ⟨target, calls, hadded, hc⟩ := step_inv h
  · rw [hc]
    exact hr slot
  · have hcalls := Call.clausesOfAll_declared r.conditions.placeholders calls
      (Step.areNative_of_added? native hadded)
    have hext := extends_after r.conditions.placeholders (Call.mentionsAll calls)
    rw [hc, Conditions.clauses_add, Conditions.placeholders_add, Clause.columnsAll_append,
      Clause.valuesAll_append]
    rw [Call.clausesOfAll_after] at hcalls
    refine ((hr slot).mono hext).append ?_
    -- only one slot has new clauses
    split
    · exact hcalls
    · exact .nil

/-- **A run of steps** puts no key into a clause that the table does not declare. -/
theorem Declared.steps {r r' : Request} {steps : List Step} (hr : r.Declared)
    (h : r.steps steps = .ok r') (native : steps.all Step.isNative = true) : r'.Declared :=
  steps_invariant Declared.step hr h native

/-- Nothing is referred to before the first step. -/
theorem declared_table (config : Config) (table : String) : (config.table table).Declared := by
  intro slot
  cases slot <;> exact .nil

end Request

end TableQuery
