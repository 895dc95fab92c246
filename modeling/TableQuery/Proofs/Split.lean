import TableQuery.Proofs.Declared
import TableQuery.Proofs.Expression.Entries

/-!
# Updates that say what was asked for

An update is recorded in one pass and sorted in another, which knows nothing but keys. What comes
out is compared here with the calls themselves: which attributes they set or count, and which they
remove (`Call.settings`, `Call.removals`). The table may be used by others between the calls, and
after them.

* **`sets_direct`**, **`removals_direct`** — sorting changes sorts what the calls do, in order.
* **`shape_recordAmid`** — a change of the right kind is recorded for everything that a call does.
* **`null_of_assign`** — assigning declares no null.
* **`readGroups?_recorded`** — the keys in the groups stand for what the calls did.
* **`updates_split`** — so an update is always written, and read back as what the calls did.
-/

namespace TableQuery

open Lexeme (textOf)
open KeySupply (IsKey)
open Mention (columnsOf valuesOf InRange)
open Placeholders (ofMentions)

/-! ## What a table declares -/

namespace KeySupply

/-- Declaring something adds nothing else. -/
theorem mem_values_declare {α : Type} [BEq α] {s : KeySupply} {m : OrderedMap α} {a b : α}
    (h : b ∈ (s.declare m a).2.1.values) : b = a ∨ b ∈ m.values := by
  unfold declare at h
  cases hkey : m.keyWhere? (· == a) with
  | some key =>
    rw [hkey] at h
    exact .inr h
  | none =>
    rw [hkey] at h
    exact OrderedMap.mem_values_insert h

end KeySupply

/-- What a table declares was declared before, or was mentioned since. -/
theorem Placeholders.mem_values_after {t : Placeholders} {ms : List Mention} {v : Value}
    (h : v ∈ (t.after ms).values.values) : v ∈ t.values.values ∨ .value v ∈ ms := by
  induction ms generalizing t with
  | nil => exact .inl h
  | cons m rest ih =>
    rcases ih h with hm | hrest
    · cases m with
      | column name => exact .inl hm
      | value w =>
        rcases KeySupply.mem_values_declare hm with rfl | hold
        · exact .inr List.mem_cons_self
        · exact .inl hold
    · exact .inr (List.mem_cons_of_mem _ hrest)

namespace Update

/-! ## What calls do -/

namespace Call

/-- The attributes that a call sets or counts. -/
def settings : Update.Call → List (Change String Value)
  | .assign item => (item.entries.filter fun e => !e.2.isNull).map fun e => .set e.1 e.2
  | .increment column amount => [.increment column amount]
  | .decrement column amount => [.decrement column amount]

/-- The attributes that a call removes. -/
def removals : Update.Call → List String
  | .assign item => (item.entries.filter fun e => e.2.isNull).map (·.1)
  | .increment .. => []
  | .decrement .. => []

/-- What a call sets or counts are those of its changes that remove nothing. -/
theorem settings_eq (call : Update.Call) :
    call.settings = call.direct.filter fun c => !c.removes := by
  cases call with
  | assign item =>
    obtain ⟨es⟩ := item
    simp only [settings, direct]
    -- null is no setting; every other value is one
    induction es with
    | nil => rfl
    | cons e rest ih =>
      cases h : e.2.isNull with
      | true => simp [assignmentDirect, Change.removes, h, ih]
      | false => simp [assignmentDirect, Change.removes, h, ih]
  | increment column amount => rfl
  | decrement column amount => rfl

/-- What a call removes are its other changes. -/
theorem removals_eq (call : Update.Call) :
    call.removals.map Change.remove = call.direct.filter Change.removes := by
  cases call with
  | assign item =>
    obtain ⟨es⟩ := item
    simp only [removals, direct]
    induction es with
    | nil => rfl
    | cons e rest ih =>
      cases h : e.2.isNull with
      | true => simp [assignmentDirect, List.filter_cons, Change.removes, h, ih]
      | false => simp [assignmentDirect, Change.removes, h, ih]
  | increment column amount => rfl
  | decrement column amount => rfl

/-- Every attribute of an item that is assigned is set or removed, and not both. -/
theorem columns_assign (item : Item) :
    ((Call.assign item).settings.map Change.column
      ++ (Call.assign item).removals).Perm item.keys := by
  have hset : (Call.assign item).settings.map Change.column
      = (item.entries.filter fun e => !e.2.isNull).map (·.1) := by
    simp only [settings, List.map_map]
    rfl
  rw [hset]
  show (List.map _ _ ++ List.map _ _).Perm (item.entries.map Prod.fst)
  rw [← List.map_append]
  refine List.Perm.map _ ?_
  refine List.perm_append_comm.trans ?_
  exact List.filter_append_perm (fun e : String × Value => e.2.isNull) item.entries

end Call

/-- Whether a change removes does not depend on its column. -/
theorem removes_map {ν ω ν' ω' : Type} (f : ν → ν') (g : ω → ω') (c : Change ν ω) :
    (c.map f g).removes = c.removes := by
  cases c <;> rfl

/-- Sorting out what sets does not look at keys. -/
theorem sets_map (f : String → String) (g : Value → String) (cs : List (Change String Value)) :
    sets (cs.map (Change.map f g)) = (cs.filter fun c => !c.removes).map (Change.map f g) := by
  unfold sets
  rw [List.filter_map]
  simp only [Function.comp_def, removes_map]

/-- Sorting out what removes does not look at keys. -/
theorem removals_map (f : String → String) (g : Value → String) (cs : List (Change String Value)) :
    removals (cs.map (Change.map f g)) = (cs.filter Change.removes).map (Change.map f g) := by
  unfold removals
  rw [List.filter_map]
  simp only [Function.comp_def, removes_map]

/-- Of all changes of some calls, those that set are what the calls set, in order. -/
theorem sets_direct (calls : List Update.Call) :
    ((calls.flatMap Call.direct).filter fun c => !c.removes) = calls.flatMap Call.settings := by
  rw [List.filter_flatMap]
  exact congrArg (calls.flatMap ·) (funext fun c => c.settings_eq.symm)

/-- Those that remove are what the calls remove, in order. -/
theorem removals_direct (calls : List Update.Call) :
    (calls.flatMap Call.direct).filter Change.removes
      = (calls.flatMap Call.removals).map Change.remove := by
  rw [List.filter_flatMap, List.map_flatMap]
  exact congrArg (calls.flatMap ·) (funext fun c => c.removals_eq.symm)

/-! ## What is recorded -/

/-- What kind of change it is, whatever its column and value. -/
def shape {ν ω : Type} (c : Change ν ω) : Change Unit Unit := c.map (fun _ => ()) fun _ => ()

/-- An assignment is recorded as the kind of change that it is, whatever the table. -/
theorem shape_assignments (t : Placeholders) (es : List (String × Value)) :
    (assignments t es).1.map shape = es.map fun e => shape (assignmentDirect e.1 e.2) := by
  induction es generalizing t with
  | nil => rfl
  | cons e rest ih =>
    obtain ⟨column, value⟩ := e
    have hfirst : shape (assignment t column value).1 = shape (assignmentDirect column value) := by
      unfold assignment assignmentDirect
      cases value.isNull <;> rfl
    rw [List.map_cons, ← hfirst, ← ih (assignment t column value).2]
    rfl

/-- Whatever the table does, the changes are of the kinds that the calls ask for. -/
theorem shape_recordAmid (t : Placeholders) (events : List Event) :
    (recordAmid t events).1.map shape = (events.flatMap Event.direct).map shape := by
  induction events generalizing t with
  | nil => rfl
  | cons event rest ih =>
    have hfirst : (event.changes t).1.map shape = event.direct.map shape := by
      cases event with
      | use m => rfl
      | call c =>
        cases c with
        | assign item =>
          refine (shape_assignments t item.entries).trans ?_
          exact List.map_map.symm
        | increment column amount => rfl
        | decrement column amount => rfl
    rw [List.flatMap_cons, List.map_append, ← hfirst, ← ih (event.changes t).2, ← List.map_append]
    rfl

/-- As many changes remove something, and as many do not. -/
theorem countP_of_shape {ν ω ν' ω' : Type} {cs : List (Change ν ω)} {ds : List (Change ν' ω')}
    (h : cs.map shape = ds.map shape) (p : Bool) :
    (cs.filter fun c => c.removes == p).length = (ds.filter fun d => d.removes == p).length := by
  have hshape {ν ω : Type} (cs : List (Change ν ω)) :
      (cs.filter fun c => c.removes == p).length
        = ((cs.map shape).filter fun c => c.removes == p).length := by
    rw [List.filter_map, List.length_map]
    simp only [Function.comp_def, shape, removes_map]
  rw [hshape cs, hshape ds, h]

/-- **Assigning declares no null.** -/
theorem null_of_assign {t : Placeholders} {item : Item}
    (h : Value.null ∈ (assign t item).2.values.values) : Value.null ∈ t.values.values := by
  have hafter : (assign t item).2 = t.after (Call.assign item).mentions :=
    assignments_after t item.entries
  rw [hafter] at h
  refine (Placeholders.mem_values_after h).resolve_right fun hmem => ?_
  obtain ⟨e, -, he⟩ := List.mem_flatMap.1 hmem
  unfold assignmentMentions at he
  split at he
  · -- the value that is null is not mentioned
    cases List.mem_singleton.1 he
  · rename_i hnull
    rcases List.mem_cons.1 he with heq | hvalue
    · cases heq
    · injection List.mem_singleton.1 hvalue with heq
      exact hnull (heq ▸ rfl)

/-! ## Updates amid other uses -/

/-- The changes that the calls among events record, from an empty table on. -/
def recorded (events : List Event) : List KeyedChange := (recordAmid .empty events).1

/-- The table that is left after events. -/
def shared (events : List Event) : Placeholders := (recordAmid .empty events).2

/-- An update says what its calls did, wherever the table was used in between. -/
structure Faithful (events : List Event) : Prop where
  written : ∃ u, expression (shared events) (recorded events) = .ok u
  nothing : expression (shared events) (recorded events) = .ok none ↔ recorded events = []
  /-- Nothing is recorded only where the calls do nothing. -/
  idle : recorded events = []
    ↔ (Event.calls events).flatMap Call.settings = []
      ∧ (Event.calls events).flatMap Call.removals = []
  returned : ∀ text returned,
    expression (shared events) (recorded events) = .ok (some (text, returned)) →
      returned = .updatedNew
  /-- The expression consists of the changes, as many as the calls ask for: first those that set,
  then those that remove, each kind in its order and under its keyword, if there are any. -/
  grouped : ∀ text returned,
    expression (shared events) (recorded events) = .ok (some (text, returned)) →
      gather (Lexeme.ofText text)
          = ⟨[], [], under "set" ((sets (recorded events)).map Change.words)
              ++ under "remove" ((removals (recorded events)).map Change.words)⟩
        ∧ (sets (recorded events)).length = ((Event.calls events).flatMap Call.settings).length
        ∧ (removals (recorded events)).length = ((Event.calls events).flatMap Call.removals).length
  /-- Through the table, these are the attributes that the calls set or count, and those that they
  remove, as long as the numbers of the keys have not run over. -/
  read : InRange (events.flatMap Event.mentions) → ∀ text returned,
    expression (shared events) (recorded events) = .ok (some (text, returned)) →
      read? (shared events) text
        = some (under "set" ((Event.calls events).flatMap Call.settings)
            ++ under "remove" (((Event.calls events).flatMap Call.removals).map Change.remove))

section

variable (events : List Event)

/-- All declared keys of the table that is left are numbered ones. -/
theorem numbered_shared : (shared events).Numbered := by
  unfold shared
  rw [recordAmid_after]
  exact Placeholders.numbered_empty.after _

/-- An update can always be written, since all of its keys are declared; nothing is written if
nothing was recorded. -/
theorem expression_recorded :
    expression (shared events) (recorded events)
      = .ok (if (recorded events).isEmpty then none
          else some (textOf (lexemes (recorded events)), .updatedNew)) := by
  have hoffences : offencesAll (shared events) (recorded events) = [] :=
    offencesAll_of_declared (recordAmid_declared .empty events)
  rw [expression_eq, hoffences]
  rfl

variable {events}

/-- The keys in recorded changes are numbered ones, of their kinds. -/
theorem isKey_recorded {c : KeyedChange} (hc : c ∈ recorded events) :
    IsKey nameSigil c.column ∧ ∀ v ∈ c.value?, IsKey valueSigil v := by
  have declared := recordAmid_declared .empty events
  refine ⟨(numbered_shared events).isKey_name (declared.column _ (List.mem_map_of_mem hc)), ?_⟩
  intro v hv
  refine (numbered_shared events).isKey_value (declared.value v ?_)
  exact List.mem_flatMap.2 ⟨c, hc, Option.mem_toList.2 hv⟩

/-- What is written is cut into the lexemes of the changes. -/
theorem ofText_recorded :
    Lexeme.ofText (textOf (lexemes (recorded events))) = lexemes (recorded events) := by
  have hapart := apart_lexemes (x := [])
    (fun c (hc : c ∈ recorded events) => (isKey_recorded hc).1.isWord (by decide))
    (fun c hc v hv => ((isKey_recorded hc).2 v hv).isWord (by decide)) trivial
  rw [List.append_nil] at hapart
  exact Lexeme.cut_textOf hapart

/-- The text of an update is gathered into the changes that it was written for, those that set
first. -/
theorem gather_recorded :
    gather (Lexeme.ofText (textOf (lexemes (recorded events))))
      = ⟨[], [], under "set" ((sets (recorded events)).map Change.words)
          ++ under "remove" ((removals (recorded events)).map Change.words)⟩ := by
  rw [ofText_recorded]
  -- no key is a keyword, since keys begin with a sigil
  apply gather_lexemes
  intro c hc
  obtain ⟨hcolumn, hvalue⟩ := isKey_recorded hc
  refine ⟨not_mem_keywords hcolumn (by decide) (by decide), fun v hv => ?_⟩
  exact not_mem_keywords (hvalue v hv) (by decide) (by decide)

/-- As many changes set as the calls ask for. -/
theorem length_sets :
    (sets (recorded events)).length = ((Event.calls events).flatMap Call.settings).length := by
  -- changes are counted by their kind, which does not depend on the keys
  have hcount := countP_of_shape (shape_recordAmid .empty events) false
  rw [Event.flatMap_direct] at hcount
  simp only [beq_false] at hcount
  rw [← sets_direct]
  exact hcount

/-- As many changes remove as the calls ask for. -/
theorem length_removals :
    (removals (recorded events)).length = ((Event.calls events).flatMap Call.removals).length := by
  have hcount := countP_of_shape (shape_recordAmid .empty events) true
  rw [Event.flatMap_direct] at hcount
  simp only [beq_true] at hcount
  rw [removals_direct, List.length_map] at hcount
  exact hcount

/-- Nothing is recorded exactly if the calls neither set nor remove anything. -/
theorem recorded_eq_nil_iff :
    recorded events = [] ↔ (Event.calls events).flatMap Call.settings = []
      ∧ (Event.calls events).flatMap Call.removals = [] := by
  rw [← List.length_eq_zero_iff (l := (Event.calls events).flatMap Call.settings), ← length_sets,
    ← List.length_eq_zero_iff (l := (Event.calls events).flatMap Call.removals), ← length_removals,
    List.length_eq_zero_iff, List.length_eq_zero_iff]
  constructor
  · intro h
    rw [h]
    exact ⟨rfl, rfl⟩
  · rintro ⟨hsets, hremovals⟩
    -- a change would be in one of the groups
    refine groups_eq_nil.1 ?_
    rw [groups, hsets, hremovals]
    rfl

/-- What the calls do is mentioned, and bound to its keys from then on. -/
theorem bound_direct (range : InRange (events.flatMap Event.mentions)) :
    Bound (ofMentions (events.flatMap Event.mentions))
      (ofMentions (events.flatMap Event.mentions)).nameOf
      (ofMentions (events.flatMap Event.mentions)).valueOf
      ((Event.calls events).flatMap Call.direct) := by
  intro c hc
  rw [← Event.flatMap_direct] at hc
  obtain ⟨event, hevent, hc⟩ := List.mem_flatMap.1 hc
  cases event with
  | use m => cases hc
  | call call =>
    -- what a call mentions is among what all events mention, and so has a key in the final table
    have hmentions (m : Mention) (hm : m ∈ call.mentions) : m ∈ events.flatMap Event.mentions :=
      List.mem_flatMap.2 ⟨_, hevent, hm⟩
    constructor
    · have hcolumn : c.column ∈ columnsOf call.mentions := by
        rw [Call.columnsOf_mentions]
        exact List.mem_map_of_mem hc
      apply Placeholders.get?_nameOf range
      exact Mention.mem_columnsOf.2 (hmentions _ (Mention.mem_columnsOf.1 hcolumn))
    · intro v hv
      have hvalue : v ∈ valuesOf call.mentions := by
        rw [Call.valuesOf_mentions]
        exact List.mem_flatMap.2 ⟨c, hc, Option.mem_toList.2 hv⟩
      apply Placeholders.get?_valueOf range
      exact Mention.mem_valuesOf.2 (hmentions _ (Mention.mem_valuesOf.1 hvalue))

/-- **The groups are read** as what the calls did. -/
theorem readGroups?_recorded (range : InRange (events.flatMap Event.mentions)) :
    readGroups? (shared events) (under "set" ((sets (recorded events)).map Change.words)
        ++ under "remove" ((removals (recorded events)).map Change.words))
      = some (under "set" ((Event.calls events).flatMap Call.settings)
          ++ under "remove" (((Event.calls events).flatMap Call.removals).map Change.remove)) := by
  have bound := bound_direct range
  have hshared : shared events = ofMentions (events.flatMap Event.mentions) := by
    rw [shared, recordAmid_after, Placeholders.after_empty range]
  have hrecorded : recorded events = ((Event.calls events).flatMap Call.direct).map
      (Change.map (ofMentions (events.flatMap Event.mentions)).nameOf
        (ofMentions (events.flatMap Event.mentions)).valueOf) := by
    rw [← Event.flatMap_direct, recorded, Placeholders.empty_eq_ofMentions]
    exact recordAmid_keyed range (List.prefix_refl _)
  rw [hshared, hrecorded, sets_map, removals_map, ← sets_direct, ← removals_direct]
  -- there is nothing after the second group
  have hend (t : Placeholders) : readGroups? t [] = some [] := rfl
  have hremoved := readGroups?_under "remove" (bound.filter Change.removes) (hend _)
  rw [List.append_nil, List.append_nil] at hremoved
  exact readGroups?_under "set" (bound.filter fun c => !c.removes) hremoved

/-- Any events, however the table was used in between, give an update that says what its calls did.
-/
theorem faithful : Faithful events := by
  have hexpression := expression_recorded events
  -- a text is only written where something is recorded
  have htext {text : String} {returned : Wire.ReturnValue}
      (h : expression (shared events) (recorded events) = .ok (some (text, returned))) :
      text = textOf (lexemes (recorded events)) ∧ returned = .updatedNew := by
    rw [hexpression] at h
    split at h
    · cases h
    · cases h
      exact ⟨rfl, rfl⟩
  refine ⟨⟨_, hexpression⟩, ?_, recorded_eq_nil_iff, fun text returned h => (htext h).2,
    fun text returned h => ?_, fun range text returned h => ?_⟩
  · rw [hexpression]
    cases recorded events <;> simp
  · rw [(htext h).1]
    exact ⟨gather_recorded, length_sets, length_removals⟩
  · rw [(htext h).1, read?, gather_recorded]
    exact readGroups?_recorded range

end

/-- **Updates are split faithfully.** Whatever calls there are on an update, and however its table
is used in between, the update is written and says what the calls did, in their order; there is
nothing to say only where the calls did nothing. Assigning an item declares no null, and gives each
of its attributes one entry, in one group. -/
theorem updates_split :
    (∀ events, Faithful events)
      ∧ (∀ t item, Value.null ∈ (assign t item).2.values.values → Value.null ∈ t.values.values)
      ∧ ∀ item : Item, item.Distinct →
        ((Call.assign item).settings.map Change.column ++ (Call.assign item).removals).Nodup
          ∧ ((Call.assign item).settings.map Change.column
              ++ (Call.assign item).removals).Perm item.keys := by
  refine ⟨fun events => faithful, fun t item => null_of_assign, fun item distinct => ?_⟩
  have perm := Call.columns_assign item
  exact ⟨perm.nodup_iff.2 distinct, perm⟩

/-- An item with an attribute to remove. -/
def draftItem : Item := ⟨[("Title", .string "T"), ("Tags", .null), ("Views", .number "1")]⟩

/-- Calls on a table that is used by others, for a column of the item and for null. -/
def busyEvents : List Event :=
  [.use (.column "Views"), .call (.assign draftItem), .use (.value .null),
    .call (.increment "Views" (.number "1")), .call (.assign ⟨[("Likes", .null)]⟩),
    .call (.decrement "Likes" (.number "2")), .use (.column "Answered")]

/-- Columns and values that were mentioned by others keep their keys; what is removed follows what
is set; and the text is read back as the calls, in their order. -/
theorem updates_split_busy :
    InRange (busyEvents.flatMap Event.mentions)
      ∧ expression (shared busyEvents) (recorded busyEvents)
        = .ok (some ("set #2 = :1, #1 = :2, #1 = #1 + :2, #4 = #4 - :4 remove #3, #4", .updatedNew))
      ∧ read? (shared busyEvents)
          "set #2 = :1, #1 = :2, #1 = #1 + :2, #4 = #4 - :4 remove #3, #4"
        = some [("set", [.set "Title" (.string "T"), .set "Views" (.number "1"),
              .increment "Views" (.number "1"), .decrement "Likes" (.number "2")]),
            ("remove", [.remove "Tags", .remove "Likes"])]
      ∧ ((Call.assign draftItem).settings.map Change.column
          ++ (Call.assign draftItem).removals).Nodup := by
  have range : InRange (busyEvents.flatMap Event.mentions) := ⟨by decide, by decide⟩
  have hwritten : expression (shared busyEvents) (recorded busyEvents)
      = .ok (some ("set #2 = :1, #1 = :2, #1 = #1 + :2, #4 = #4 - :4 remove #3, #4",
          .updatedNew)) := rfl
  have distinct : draftItem.Distinct := by
    show ["Title", "Tags", "Views"].Nodup
    decide
  exact ⟨range, hwritten, (updates_split.1 busyEvents).read range _ _ hwritten,
    (updates_split.2.2 draftItem distinct).1⟩

end Update

end TableQuery
