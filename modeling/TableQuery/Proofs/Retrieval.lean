import TableQuery.Proofs.DryRun
import TableQuery.Proofs.FirstUse
import TableQuery.Proofs.Ledger
import TableQuery.Proofs.Split

/-!
# Lookups and scans

Items are looked up by their key where a clause speaks of a key column, and scanned for otherwise.
Whether one does is asked of the table, which has been used by every call on every slot, and which
will be used for the columns to return as well, but later. Here it is asked of the calls themselves,
at whatever depth they were made: each is about one column (`Leaf.column`).

* **`Step.columnsOf_mentions`** — the columns that steps mention are those that their calls are
  about, and no others.
* **`Placeholders.mentions_after`** — a table has a key for the columns that were mentioned.
* **`constrainsKey_steps`** — so a request constrains its key if a call is about a key column.
* **`Step.constrainsKey_withKeys`** — wherever the key columns are declared.
* **`retrieval_exact`** — a lookup is a query then, and a scan otherwise.
-/

namespace TableQuery

open Mention (columnsOf InRange)

/-! ## Columns of calls -/

namespace Leaf

/-- The column that a clause is about. -/
def column : Leaf → String
  | .compare column _ => column
  | .size column _ _ => column
  | .membership column _ => column
  | .between column _ _ => column

end Leaf

/-- Operands are values, even where they are texts. -/
theorem Operand.columnsOf_mentions (operand : Operand) : columnsOf operand.mentions = [] := by
  cases operand with
  | equals value => rfl
  | bare token =>
    rw [mentions]
    cases isKnown token <;> rfl
  | operator token value => rfl

theorem Leaf.columnsOf_mentions (leaf : Leaf) : columnsOf leaf.mentions = [leaf.column] := by
  cases leaf with
  | compare column operand =>
    rw [mentions, Mention.columnsOf_cons_column, operand.columnsOf_mentions]
    rfl
  | size column operator value => rfl
  | membership column values =>
    rw [mentions, Mention.columnsOf_cons_column, Mention.columnsOf_map_value]
    rfl
  | between column low high => rfl

namespace Step

/-- The columns that calls are about, whatever slot they are made on, whatever depth they are made
at, and whether or not their clauses have expressions. -/
def columns (steps : List Step) : List String := (steps.flatMap leaves).map Leaf.column

/-- **Nothing else** that steps say mentions a column. -/
theorem columnsOf_mentions (steps : List Step) :
    columnsOf (steps.flatMap mentions) = columns steps := by
  rw [flatMap_mentions, columns]
  induction steps.flatMap leaves with
  | nil => rfl
  | cons leaf rest ih =>
    rw [List.flatMap_cons, Mention.columnsOf_append, leaf.columnsOf_mentions, ih]
    rfl

/-- Key columns are declared, and a call is about one of those that were declared last. -/
def ConstrainsKey (steps : List Step) : Prop :=
  ∃ schema ∈ lastSchema steps, ∃ column ∈ schema.columns, column ∈ columns steps

instance (steps : List Step) : Decidable (ConstrainsKey steps) :=
  inferInstanceAs (Decidable (∃ schema ∈ lastSchema steps, ∃ column ∈ schema.columns,
    column ∈ columns steps))

/-- Calls about the same columns constrain the same key. -/
theorem constrainsKey_congr {steps steps' : List Step} (keys : lastSchema steps' = lastSchema steps)
    (same : ∀ column, column ∈ columns steps' ↔ column ∈ columns steps) :
    ConstrainsKey steps' ↔ ConstrainsKey steps := by
  unfold ConstrainsKey
  simp only [keys, same]

theorem columns_append (steps later : List Step) :
    columns (steps ++ later) = columns steps ++ columns later := by
  rw [columns, List.flatMap_append, List.map_append]
  rfl

/-- **Wherever the key columns are declared**, before the calls, between them or after them. -/
theorem constrainsKey_withKeys {before after : List Step} {schema : KeySchema}
    (last : lastSchema after = none) :
    ConstrainsKey (before ++ .set (.withKeys schema) :: after)
      ↔ ∃ column ∈ schema.columns, column ∈ columns (before ++ after) := by
  have hcolumns : columns (.set (.withKeys schema) :: after) = columns after := rfl
  have hschema : lastSchema (before ++ .set (.withKeys schema) :: after) = some schema := by
    unfold lastSchema at last ⊢
    rw [List.reverse_append, List.reverse_cons, List.findSome?_append, List.findSome?_append, last]
    rfl
  unfold ConstrainsKey
  rw [hschema, columns_append, hcolumns, ← columns_append]
  simp

end Step

/-! ## Columns of the table -/

namespace Placeholders

/-- What a table declares was declared before, or was mentioned since, even where the numbers have
run over. -/
theorem mem_names_after {t : Placeholders} {ms : List Mention} {column : String}
    (h : column ∈ (t.after ms).names.values) :
    column ∈ t.names.values ∨ column ∈ columnsOf ms := by
  induction ms generalizing t with
  | nil => exact .inl h
  | cons m rest ih =>
    cases m with
    | column name =>
      rcases ih h with hm | hrest
      · rcases KeySupply.mem_values_declare hm with rfl | hold
        · exact .inr List.mem_cons_self
        · exact .inl hold
      · exact .inr (List.mem_cons_of_mem _ hrest)
    | value v => exact ih (t := (t.valueKey v).2) h

theorem mentions_iff {t : Placeholders} {column : String} :
    t.mentions column = true ↔ column ∈ t.names.values := List.contains_iff_mem

theorem mem_columnsOf_of_mentions {ms : List Mention} {column : String}
    (h : (empty.after ms).mentions column = true) : column ∈ columnsOf ms :=
  (mem_names_after (mentions_iff.1 h)).resolve_left List.not_mem_nil

/-- Values take no keys from columns. -/
theorem names_after {ms : List Mention}
    (room : (columnsOf ms).eraseDups.length ≤ KeySupply.capacity) :
    (empty.after ms).names.values = (columnsOf ms).eraseDups := by
  have range : InRange ((columnsOf ms).map .column) := by
    refine ⟨?_, ?_⟩
    · rw [Mention.columnsOf_map_column]
      exact room
    · rw [Mention.valuesOf_map_column]
      exact Nat.zero_le _
  have start : SameColumns empty empty := ⟨rfl, rfl⟩
  have apart := after_columns start ms
  rw [apart.names, after_empty range, ofMentions, Mention.columnsOf_map_column,
    KeySupply.values_numbered]

/-- **A table has a key for a column** that was mentioned, and for no other. -/
theorem mentions_after {ms : List Mention} {column : String}
    (room : (columnsOf ms).eraseDups.length ≤ KeySupply.capacity) :
    (empty.after ms).mentions column = true ↔ column ∈ columnsOf ms := by
  rw [mentions_iff, names_after room, List.mem_eraseDups]

end Placeholders

/-! ## Requests that constrain their keys -/

namespace Request

theorem constrainsKey_iff {r : Request} :
    r.constrainsKey = true ↔ ∃ schema ∈ r.options.keySchema, ∃ column ∈ schema.columns,
      r.conditions.placeholders.mentions column = true := by
  unfold constrainsKey
  cases r.options.keySchema with
  | none => simp
  | some schema => simp

theorem retrieval_eq_query {r : Request} : r.retrieval = .query ↔ r.constrainsKey = true := by
  unfold retrieval
  cases r.constrainsKey <;> decide

theorem retrieval_eq_scan {r : Request} : r.retrieval = .scan ↔ ¬r.constrainsKey = true := by
  unfold retrieval
  cases r.constrainsKey <;> decide

section

variable {config : Config} {table : String} {steps : List Step} {r : Request}

/-- A request that constrains its key was told to by a call. -/
theorem steps_of_constrainsKey (made : (config.table table).steps steps = .ok r)
    (h : r.constrainsKey = true) : Step.ConstrainsKey steps := by
  obtain ⟨schema, hschema, column, hcolumn, hmentions⟩ := constrainsKey_iff.1 h
  rw [keySchema_steps made] at hschema
  rw [steps_placeholders made] at hmentions
  have hmem := Placeholders.mem_columnsOf_of_mentions hmentions
  rw [Step.columnsOf_mentions] at hmem
  exact ⟨schema, hschema, column, hcolumn, hmem⟩

/-- **A request constrains its key** if a call is about a key column, and only then. -/
theorem constrainsKey_steps (made : (config.table table).steps steps = .ok r)
    (room : (Step.columns steps).eraseDups.length ≤ KeySupply.capacity) :
    r.constrainsKey = true ↔ Step.ConstrainsKey steps := by
  refine ⟨steps_of_constrainsKey made, ?_⟩
  rintro ⟨schema, hschema, column, hcolumn, hmem⟩
  rw [← Step.columnsOf_mentions] at room hmem
  refine constrainsKey_iff.2 ⟨schema, ?_, column, hcolumn, ?_⟩
  · rw [keySchema_steps made]
    exact hschema
  · rw [steps_placeholders made]
    exact (Placeholders.mentions_after room).2 hmem

end

/-! ## One retrieval -/

/-- Items are retrieved by a command: what is shown and sent, and what comes of it, is that of the
command, and the client gets no operation but that of the command. -/
structure RetrievesBy (r : Request) (command : Command) : Prop where
  operation : r.retrieval = r.operationOf command
  prepared : r.prepare .get = r.prepare command
  run : ∀ {σ : Type} (client : Client σ) (s : σ), r.run client .get s = r.run client command s
  sent : ∀ {σ : Type} (client : Client σ) (log : Calls) (s : σ),
    ∃ calls, (r.run client.recorded .get (log, s)).2.1 = log ++ calls
      ∧ ∀ call ∈ calls, call.1 = r.operationOf command

/-- The client gets what is prepared, or nothing. -/
theorem sent_run {σ : Type} (r : Request) (command : Command) (client : Client σ) (log : Calls)
    (s : σ) : ∃ calls, (r.run client.recorded command (log, s)).2.1 = log ++ calls
      ∧ ∀ call ∈ calls, ∃ p, r.prepare command = .ok p ∧ call = (p.operation, p.parameters) := by
  cases h : r.prepare command with
  | error e =>
    rw [run_refused _ _ h]
    exact ⟨[], (List.append_nil _).symm, List.forall_mem_nil _⟩
  | ok p =>
    cases hdry : r.options.dryRun with
    | true =>
      rw [run_dry _ _ h hdry]
      exact ⟨[], (List.append_nil _).symm, List.forall_mem_nil _⟩
    | false =>
      obtain ⟨answer, -, hperform⟩ := p.perform_recorded client log s
      rw [run_live _ _ h hdry, hperform]
      refine ⟨[(p.operation, p.parameters)], rfl, fun call hcall => ?_⟩
      exact ⟨p, rfl, List.mem_singleton.1 hcall⟩

/-- What is prepared is prepared for the operation that the command becomes. -/
theorem operation_get {r : Request} {p : Prepared} (h : r.prepare .get = .ok p) :
    p.operation = r.retrieval := by
  obtain ⟨parameters, -, rfl⟩ := map_eq_ok.1 h
  rfl

theorem retrievesBy_of_prepared {r : Request} {command : Command}
    (operation : r.retrieval = r.operationOf command)
    (prepared : r.prepare .get = r.prepare command) : r.RetrievesBy command where
  operation := operation
  prepared := prepared
  run client s := by rw [Request.run, prepared, Request.run]
  sent client log s := by
    obtain ⟨calls, hcalls, hsent⟩ := r.sent_run .get client log s
    refine ⟨calls, hcalls, fun call hcall => ?_⟩
    obtain ⟨p, hp, rfl⟩ := hsent call hcall
    exact (operation_get hp).trans operation

theorem retrievesBy_query {r : Request} (h : r.retrieval = .query) : r.RetrievesBy .query :=
  retrievesBy_of_prepared h (by rw [prepare, prepare, h])

theorem retrievesBy_scan {r : Request} (h : r.retrieval = .scan) : r.RetrievesBy .scan :=
  retrievesBy_of_prepared h (by rw [prepare, prepare, h])

/-- **Lookups are told from scans by the calls alone.** Items are looked up if key columns were
declared, before the calls or after them, and if a call was about one of those that were declared
last, by whatever method it was made, on whatever slot and at whatever depth. Otherwise they are
scanned for. Nothing else that names a column counts: neither the columns to return nor the keys of
the request, nor a text that is an operand. So other steps that declare the same key columns last
and whose calls are about the same columns retrieve items in the same way, and it does not matter
where among the calls the key columns are declared.

Where there are more columns than keys, numbers run over and a column can lose its key. Items are
still looked up only if a call was about a key column. -/
theorem retrieval_exact {config : Config} {table : String} {steps : List Step} {r : Request}
    (made : (config.table table).steps steps = .ok r) :
    (r.retrieval = .query → Step.ConstrainsKey steps)
      ∧ (¬Step.ConstrainsKey steps → r.RetrievesBy .scan)
      ∧ ((Step.columns steps).eraseDups.length ≤ KeySupply.capacity →
          (r.retrieval = .query ↔ Step.ConstrainsKey steps)
            ∧ (r.retrieval = .scan ↔ ¬Step.ConstrainsKey steps)
            ∧ (Step.ConstrainsKey steps → r.RetrievesBy .query)
            ∧ (∀ config' table' steps' r', (Config.table config' table').steps steps' = .ok r' →
                Step.lastSchema steps' = Step.lastSchema steps →
                (∀ column, column ∈ Step.columns steps' ↔ column ∈ Step.columns steps) →
                r'.retrieval = r.retrieval)
            ∧ ∀ before after schema, steps = before ++ .set (.withKeys schema) :: after →
                Step.lastSchema after = none →
                (r.retrieval = .query
                  ↔ ∃ column ∈ schema.columns, column ∈ Step.columns (before ++ after))) := by
  refine ⟨fun h => steps_of_constrainsKey made (retrieval_eq_query.1 h), fun h => ?_, fun room => ?_⟩
  · exact retrievesBy_scan (retrieval_eq_scan.2 fun hc => h (steps_of_constrainsKey made hc))
  · have constrains := constrainsKey_steps made room
    refine ⟨retrieval_eq_query.trans constrains, retrieval_eq_scan.trans (not_congr constrains),
      fun h => retrievesBy_query (retrieval_eq_query.2 (constrains.2 h)), ?_, ?_⟩
    · intro config' table' steps' r' made' keys same
      -- as many different columns have as many keys
      have hperm : (Step.columns steps').eraseDups.Perm (Step.columns steps).eraseDups := by
        refine (List.perm_ext_iff_of_nodup (KeySupply.nodup_eraseDups _)
          (KeySupply.nodup_eraseDups _)).2 fun column => ?_
        rw [List.mem_eraseDups, List.mem_eraseDups, same]
      have room' := hperm.length_eq ▸ room
      have hsame : r'.constrainsKey = r.constrainsKey := by
        rw [Bool.eq_iff_iff, constrainsKey_steps made' room', constrains,
          Step.constrainsKey_congr keys same]
      rw [retrieval, retrieval, hsame]
    · rintro before after schema rfl last
      exact (retrieval_eq_query.trans constrains).trans (Step.constrainsKey_withKeys last)

/-- A call in a group is about a key column. Its clause has no expression, and the columns are
declared after it, in place of others. -/
def nestedKeySteps : List Step :=
  [.set (.withKeys { partition := "Views" }),
    .add .condition [.group .or [.compare .and "Subject" (.bare "<")]],
    .set (.withKeys { partition := "ForumName", sort := some "Subject" })]

/-- Key columns are named by everything but calls. -/
def namedKeySteps : List Step :=
  [.set (.withKeys { partition := "ForumName", sort := some "Subject" }),
    .set (.select ["ForumName", "Subject"]),
    .set (.key ⟨[("ForumName", .string "S3"), ("Subject", .string "Keys")]⟩),
    .set (.exclusiveStartKey ⟨[("ForumName", .s "S3")]⟩),
    .addNamed "orFilter" (.comparison "Views" (.bare "Subject"))]

theorem retrieval_exact_nested :
    (∃ r, (Config.table {} "Thread").steps nestedKeySteps = .ok r ∧ r.RetrievesBy .query)
      ∧ ∃ r, (Config.table {} "Thread").steps namedKeySteps = .ok r ∧ r.RetrievesBy .scan := by
  have nested : (Config.table {} "Thread").steps nestedKeySteps = .ok _ := rfl
  have named : (Config.table {} "Thread").steps namedKeySteps = .ok _ := rfl
  exact ⟨⟨_, nested, ((retrieval_exact nested).2.2 (by decide)).2.2.1 (by decide)⟩,
    ⟨_, named, (retrieval_exact named).2.1 (by decide)⟩⟩

end Request

end TableQuery
