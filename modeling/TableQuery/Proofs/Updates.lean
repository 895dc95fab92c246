import TableQuery.Proofs.Mentions
import TableQuery.Update

/-!
# Calls on an update

An update is recorded by calls: attributes are assigned, or a counter is moved. Like the clauses of
a condition, the changes hold keys; read directly they hold the columns and values themselves.

The table of an update may be shared, and used by others between the calls (`Event`); calls in a row
(`record`) are the case in which nobody does.

* **`recordAmid_after`**, **`record_after`** — the table after the calls is the table after what
  they mention.
* **`recordAmid_keyed`**, **`record_keyed`** — the recorded changes are the direct changes, every
  column and value replaced by the key that it has in the table that the request ends with.
-/

namespace TableQuery

open Mention (columnsOf valuesOf InRange)
open Placeholders (ofMentions)

namespace Change

variable {ν ω ν' ω' ν'' ω'' : Type}

def map (f : ν → ν') (g : ω → ω') : Change ν ω → Change ν' ω'
  | .set column value => .set (f column) (g value)
  | .increment column amount => .increment (f column) (g amount)
  | .decrement column amount => .decrement (f column) (g amount)
  | .remove column => .remove (f column)

def column : Change ν ω → ν
  | .set column _ => column
  | .increment column _ => column
  | .decrement column _ => column
  | .remove column => column

def value? : Change ν ω → Option ω
  | .set _ value => some value
  | .increment _ amount => some amount
  | .decrement _ amount => some amount
  | .remove _ => none

theorem map_map (f : ν → ν') (g : ω → ω') (f' : ν' → ν'') (g' : ω' → ω'') (c : Change ν ω) :
    (c.map f g).map f' g' = c.map (f' ∘ f) (g' ∘ g) := by
  cases c <;> rfl

@[simp] theorem column_map (f : ν → ν') (g : ω → ω') (c : Change ν ω) :
    (c.map f g).column = f c.column := by
  cases c <;> rfl

@[simp] theorem value?_map (f : ν → ν') (g : ω → ω') (c : Change ν ω) :
    (c.map f g).value? = c.value?.map g := by
  cases c <;> rfl

/-- Replacements that agree on what occurs give the same change. -/
theorem map_congr {f f' : ν → ν'} {g g' : ω → ω'} {c : Change ν ω} (hf : f c.column = f' c.column)
    (hg : ∀ v ∈ c.value?, g v = g' v) : c.map f g = c.map f' g' := by
  cases c <;> simp_all [map, column, value?]

end Change

namespace Update

/-! ## Calls -/

inductive Call where
  | assign (item : Item)
  | increment (column : String) (amount : Value)
  | decrement (column : String) (amount : Value)

namespace Call

/-- The changes that a call records. -/
def changes (t : Placeholders) : Update.Call → List KeyedChange × Placeholders
  | .assign item => Update.assign t item
  | .increment column amount =>
    let (change, t) := Update.increment t column amount
    ([change], t)
  | .decrement column amount =>
    let (change, t) := Update.decrement t column amount
    ([change], t)

end Call

/-- The changes that calls record, one after the other. -/
def record (t : Placeholders) : List Update.Call → List KeyedChange × Placeholders
  | [] => ([], t)
  | call :: rest =>
    let (first, t) := call.changes t
    let (others, t) := record t rest
    (first ++ others, t)

/-- Later calls are recorded behind the earlier ones, from the table that those leave. -/
theorem record_append (t : Placeholders) (calls later : List Update.Call) :
    record t (calls ++ later)
      = ((record t calls).1 ++ (record (record t calls).2 later).1,
          (record (record t calls).2 later).2) := by
  induction calls generalizing t with
  | nil => rfl
  | cons call rest ih => simp [record, ih]

/-- What happens to the table of an update: a call, or a use by somebody else. -/
inductive Event where
  | call (c : Update.Call)
  | use (m : Mention)

namespace Event

def changes (t : Placeholders) : Event → List KeyedChange × Placeholders
  | .call c => c.changes t
  | .use m => ([], t.mention m)

def call? : Event → Option Update.Call
  | .call c => some c
  | .use _ => none

/-- The calls among events. -/
def calls (events : List Event) : List Update.Call := events.filterMap call?

end Event

/-- The changes that are recorded while the table is used by others, too. -/
def recordAmid (t : Placeholders) : List Event → List KeyedChange × Placeholders
  | [] => ([], t)
  | event :: rest =>
    let (first, t) := event.changes t
    let (others, t) := recordAmid t rest
    (first ++ others, t)

/-- Calls in a row are those with no other use in between. -/
theorem record_eq (t : Placeholders) (calls : List Update.Call) :
    record t calls = recordAmid t (calls.map .call) := by
  induction calls generalizing t with
  | nil => rfl
  | cons call rest ih =>
    simp only [record, ih]
    rfl

/-! ## Reading calls directly -/

/-- Null removes a column, any other value is assigned to it. -/
def assignmentDirect (column : String) (value : Value) : Change String Value :=
  if value.isNull then .remove column else .set column value

def assignmentMentions (column : String) (value : Value) : List Mention :=
  if value.isNull then [.column column] else [.column column, .value value]

namespace Call

/-- The changes of a call over columns and values themselves. -/
def direct : Update.Call → List (Change String Value)
  | .assign item => item.entries.map fun e => assignmentDirect e.1 e.2
  | .increment column amount => [.increment column amount]
  | .decrement column amount => [.decrement column amount]

def mentions : Update.Call → List Mention
  | .assign item => item.entries.flatMap fun e => assignmentMentions e.1 e.2
  | .increment column amount => [.column column, .value amount]
  | .decrement column amount => [.column column, .value amount]

end Call

namespace Event

def direct : Event → List (Change String Value)
  | .call c => c.direct
  | .use _ => []

def mentions : Event → List Mention
  | .call c => c.mentions
  | .use m => [m]

/-- Uses by others change nothing, so what events do is what the calls among them do. -/
theorem flatMap_direct (events : List Event) :
    events.flatMap direct = (calls events).flatMap Call.direct := by
  induction events with
  | nil => rfl
  | cons event rest ih =>
    rw [List.flatMap_cons, ih]
    -- a call is kept, a use is dropped on both sides
    cases event <;> rfl

end Event

/-! ## The table after calls -/

/-- An assignment uses the table for its column, and for its value unless that is null. -/
theorem assignment_after (t : Placeholders) (column : String) (value : Value) :
    (assignment t column value).2 = t.after (assignmentMentions column value) := by
  unfold assignment assignmentMentions
  cases value.isNull <;> rfl

/-- Assignments use the table one after the other. -/
theorem assignments_after (t : Placeholders) (es : List (String × Value)) :
    (assignments t es).2 = t.after (es.flatMap fun e => assignmentMentions e.1 e.2) := by
  induction es generalizing t with
  | nil => rfl
  | cons e rest ih =>
    obtain ⟨column, value⟩ := e
    rw [List.flatMap_cons, Placeholders.after_append, ← assignment_after]
    exact ih _

/-- The table after a call is the table after what the call mentions. -/
theorem Call.changes_after (t : Placeholders) (call : Update.Call) :
    (call.changes t).2 = t.after call.mentions := by
  cases call with
  | assign item => exact assignments_after t item.entries
  | increment column amount => rfl
  | decrement column amount => rfl

/-- The table after an event is the table after what the event mentions. -/
theorem Event.changes_after (t : Placeholders) (event : Event) :
    (event.changes t).2 = t.after event.mentions := by
  cases event with
  | call c => exact Call.changes_after t c
  | use m => rfl

/-- The table after events is the table after what they mention. -/
theorem recordAmid_after (t : Placeholders) (events : List Event) :
    (recordAmid t events).2 = t.after (events.flatMap Event.mentions) := by
  induction events generalizing t with
  | nil => rfl
  | cons event rest ih =>
    rw [List.flatMap_cons, Placeholders.after_append, ← Event.changes_after]
    exact ih _

/-- **The table after calls** is the table after what the calls mention. -/
theorem record_after (t : Placeholders) (calls : List Update.Call) :
    (record t calls).2 = t.after (calls.flatMap Call.mentions) := by
  rw [record_eq, recordAmid_after, List.flatMap_map]
  rfl

/-! ## The keys in the changes -/

section

variable {final : List Mention}

/-- An assignment is keyed by the keys that its column and its value have in the end. -/
theorem assignment_keyed (range : InRange final) {ms : List Mention} {column : String}
    {value : Value} (h : ms ++ assignmentMentions column value <+: final) :
    (assignment (ofMentions ms) column value).1
      = (assignmentDirect column value).map (ofMentions final).nameOf (ofMentions final).valueOf := by
  unfold assignment assignmentDirect
  unfold assignmentMentions at h
  cases hnull : value.isNull with
  | true =>
    -- a column that is removed is mentioned without a value
    simp only [hnull, if_true] at h
    simp only [Placeholders.nameKey_ofMentions range h, if_true]
    rfl
  | false =>
    simp only [hnull, Bool.false_eq_true, if_false] at h
    obtain ⟨hcolumn, hvalue⟩ := Mention.concat_prefix h
    simp only [Placeholders.nameKey_ofMentions range hcolumn,
      Placeholders.valueKey_ofMentions range hvalue, Bool.false_eq_true, if_false]
    rfl

/-- Assignments are keyed by the keys that their columns and values have in the end. -/
theorem assignments_keyed (range : InRange final) {ms : List Mention} {es : List (String × Value)}
    (h : ms ++ (es.flatMap fun e => assignmentMentions e.1 e.2) <+: final) :
    (assignments (ofMentions ms) es).1
      = es.map fun e => (assignmentDirect e.1 e.2).map (ofMentions final).nameOf
          (ofMentions final).valueOf := by
  induction es generalizing ms with
  | nil => rfl
  | cons e rest ih =>
    obtain ⟨column, value⟩ := e
    rw [List.flatMap_cons, ← List.append_assoc] at h
    have hone := (List.prefix_append _ _).trans h
    -- the other entries find the table after what the first one mentions
    have htable : (assignment (ofMentions ms) column value).2
        = ofMentions (ms ++ assignmentMentions column value) := by
      rw [assignment_after, Placeholders.after_ofMentions (range.of_prefix hone)]
    simp only [assignments, htable, assignment_keyed range hone, ih h, List.map_cons]

/-- The changes of one call are its direct changes, keyed by the keys of the end. -/
theorem Call.changes_keyed (range : InRange final) {ms : List Mention} {call : Update.Call}
    (h : ms ++ call.mentions <+: final) :
    (call.changes (ofMentions ms)).1
      = call.direct.map (Change.map (ofMentions final).nameOf (ofMentions final).valueOf) := by
  cases call with
  | assign item =>
    rw [direct, List.map_map]
    exact assignments_keyed range h
  | increment column amount =>
    -- the column and then the amount are looked up, and each has its final key already
    obtain ⟨hcolumn, hamount⟩ := Mention.concat_prefix h
    simp only [changes, Update.increment, Placeholders.nameKey_ofMentions range hcolumn,
      Placeholders.valueKey_ofMentions range hamount]
    rfl
  | decrement column amount =>
    obtain ⟨hcolumn, hamount⟩ := Mention.concat_prefix h
    simp only [changes, Update.decrement, Placeholders.nameKey_ofMentions range hcolumn,
      Placeholders.valueKey_ofMentions range hamount]
    rfl

/-- The changes of one event are its direct changes; a use by somebody else records none. -/
theorem Event.changes_keyed (range : InRange final) {ms : List Mention} {event : Event}
    (h : ms ++ event.mentions <+: final) :
    (event.changes (ofMentions ms)).1
      = event.direct.map (Change.map (ofMentions final).nameOf (ofMentions final).valueOf) := by
  cases event with
  | call c => exact Call.changes_keyed range h
  | use m => rfl

/-- **What is recorded amid other uses** are the direct changes, keyed by the table that all ends
with. -/
theorem recordAmid_keyed (range : InRange final) {ms : List Mention} {events : List Event}
    (h : ms ++ events.flatMap Event.mentions <+: final) :
    (recordAmid (ofMentions ms) events).1
      = (events.flatMap Event.direct).map
          (Change.map (ofMentions final).nameOf (ofMentions final).valueOf) := by
  induction events generalizing ms with
  | nil => rfl
  | cons event rest ih =>
    rw [List.flatMap_cons, ← List.append_assoc] at h
    have hone := (List.prefix_append _ _).trans h
    -- the other events find the table after what the first one mentions
    have htable : (event.changes (ofMentions ms)).2 = ofMentions (ms ++ event.mentions) := by
      rw [Event.changes_after, Placeholders.after_ofMentions (range.of_prefix hone)]
    simp only [recordAmid, htable, Event.changes_keyed range hone, ih h, List.flatMap_cons,
      List.map_append]

/-- **The recorded changes** are the direct changes, keyed by the table that the request ends
with. -/
theorem record_keyed (range : InRange final) {ms : List Mention} {calls : List Update.Call}
    (h : ms ++ calls.flatMap Call.mentions <+: final) :
    (record (ofMentions ms) calls).1
      = (calls.flatMap Call.direct).map
          (Change.map (ofMentions final).nameOf (ofMentions final).valueOf) := by
  have hmentions : (calls.map Event.call).flatMap Event.mentions = calls.flatMap Call.mentions :=
    List.flatMap_map ..
  have hdirect : (calls.map Event.call).flatMap Event.direct = calls.flatMap Call.direct :=
    List.flatMap_map ..
  rw [record_eq, ← hdirect]
  exact recordAmid_keyed range (hmentions ▸ h)

end

/-! ## What direct changes refer to -/

theorem columnsOf_assignmentMentions (column : String) (value : Value) :
    columnsOf (assignmentMentions column value) = [(assignmentDirect column value).column] := by
  unfold assignmentMentions assignmentDirect
  cases value.isNull <;> rfl

theorem valuesOf_assignmentMentions (column : String) (value : Value) :
    valuesOf (assignmentMentions column value) = (assignmentDirect column value).value?.toList := by
  unfold assignmentMentions assignmentDirect
  cases value.isNull <;> rfl

/-- A call mentions the columns of its changes, and no others. -/
theorem Call.columnsOf_mentions (call : Update.Call) :
    columnsOf call.mentions = call.direct.map Change.column := by
  cases call with
  | assign item =>
    simp only [mentions, direct, List.map_map]
    induction item.entries with
    | nil => rfl
    | cons e rest ih => simp [columnsOf_assignmentMentions, ih]
  | increment column amount => rfl
  | decrement column amount => rfl

/-- A call mentions the values of its changes, and no others. -/
theorem Call.valuesOf_mentions (call : Update.Call) :
    valuesOf call.mentions = call.direct.flatMap fun c => c.value?.toList := by
  cases call with
  | assign item =>
    simp only [mentions, direct]
    induction item.entries with
    | nil => rfl
    | cons e rest ih => simp [valuesOf_assignmentMentions, ih]
  | increment column amount => rfl
  | decrement column amount => rfl

/-- Calls mention the columns that they change, in order. -/
theorem columnsOf_flatMap_mentions (calls : List Update.Call) :
    columnsOf (calls.flatMap Call.mentions) = (calls.flatMap Call.direct).map Change.column := by
  induction calls with
  | nil => rfl
  | cons call rest ih => simp [Call.columnsOf_mentions, ih]

/-- Calls mention the values that they set or count by, in order. -/
theorem valuesOf_flatMap_mentions (calls : List Update.Call) :
    valuesOf (calls.flatMap Call.mentions)
      = (calls.flatMap Call.direct).flatMap fun c => c.value?.toList := by
  induction calls with
  | nil => rfl
  | cons call rest ih => simp [Call.valuesOf_mentions, ih]

end Update

end TableQuery
