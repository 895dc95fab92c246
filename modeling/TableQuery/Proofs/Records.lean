import Mathlib.Data.List.Forall2
import TableQuery.Proofs.GenericValue
import TableQuery.Proofs.Report

/-!
# Records, written and read

A record is written as an object, and a field that has nothing to tell is left out. It is read from
an object whose members stand in any order, or from an array of its fields. Either way each field is
read from one part of the document (`field?`), and the other fields do not touch what it was read
into (`Shows`).

* **`get?_recordJson`** — the member that is written for a field.
* **`Shows.readRecord`** — a record that was read has, for each field, what the document holds for
  it.
* **`exists_readRecord`** — an object is read if its names are different, its fields can be read,
  and no required field is missed.
* **`readRecord_member`** — an object with one field.
-/

namespace TableQuery

open Json

/-! ## Writing -/

namespace Wire

/-- **The member that is written for a field** is its generic value, and there is none if the field
is left out. -/
theorem get?_recordJson {name : String} {fields : List (Option (String × Json))}
    (field : Option (String × Json)) (h : field ∈ fields)
    (own : ∀ n, fieldName field = some n → n = name)
    (others : ∀ f ∈ fields, f ≠ field → fieldName f ≠ some name) :
    (recordJson fields).canonical.get? name = field.map fun m => m.2.canonical := by
  cases field with
  | none =>
    rw [Option.map_none, get?_recordJson_eq_none]
    intro f hf
    by_cases hnone : f = none
    · simp [hnone, fieldName]
    · exact others f hf hnone
  | some m =>
    have hname : m.1 = name := own m.1 rfl
    refine Json.get?_canonical_of_agree (fun m' hm' hname' => ?_) (List.mem_map.2 ⟨m, ?_, hname⟩)
    · -- another field would have another name
      have hmem : some m' ∈ fields := by simpa using hm'
      by_contra hne
      exact others _ hmem (fun heq => hne (by rw [Option.some.inj heq])) (congrArg some hname')
    · simpa using h

section

variable {α : Type} {name : String} {fields : List (Option (String × Json))}

/-- A map is written under its name if it has entries, and otherwise there is no such member. -/
theorem get?_ifEntries {write : OrderedMap α → Json} {m : OrderedMap α}
    (h : ifEntries name write m ∈ fields)
    (others : ∀ f ∈ fields, f ≠ ifEntries name write m → fieldName f ≠ some name) :
    (recordJson fields).canonical.get? name
      = if m.isEmpty then none else some (write m).canonical := by
  rw [get?_recordJson _ h (fun n hn => ?_) others]
  · unfold ifEntries
    split <;> rfl
  · rw [fieldName_ifEntries] at hn
    split at hn <;> cases hn
    rfl

end

end Wire

namespace Json

variable {α β γ : Type}

/-! ## Reading lists, maps and options -/

/-- Elements are read one for one. -/
theorem readElements_eq_ok {read : Reader β} {js : List Json} {bs : List β} :
    readElements read none (draftElements js) = .ok bs
      ↔ List.Forall₂ (fun j b => read j.toDraft = .ok b) js bs := by
  induction js generalizing bs with
  | nil => cases bs <;> simp [draftElements, readElements, close]
  | cons j rest ih =>
    rw [draftElements, readElements]
    simp only [bind_eq_ok, ih, List.forall₂_cons_left_iff]
    constructor
    · rintro ⟨b, hb, more, hmore, hbs⟩
      cases hbs
      exact ⟨b, more, hb, hmore, rfl⟩
    · rintro ⟨b, more, hb, hmore, rfl⟩
      exact ⟨b, hb, more, hmore, rfl⟩

/-- A list is read from an array, element by element. -/
theorem readList_eq_ok {read : Reader β} {j : Json} {bs : List β} :
    readList read j.toDraft = .ok bs
      ↔ ∃ js, j = .array js ∧ List.Forall₂ (fun j b => read j.toDraft = .ok b) js bs := by
  cases j with
  | array js =>
    simp only [Json.array.injEq, exists_eq_left']
    exact readElements_eq_ok
  | _ => simp [toDraft, readList]

/-- A list that is written element by element is read element by element. -/
theorem readList_map {read : Reader β} {write : γ → Json} {result : γ → β} {cs : List γ}
    (h : ∀ c ∈ cs, read (write c).toDraft = .ok (result c)) :
    readList read (Json.array (cs.map write)).toDraft = .ok (cs.map result) := by
  refine readList_eq_ok.2 ⟨_, rfl, ?_⟩
  rw [List.forall₂_map_left_iff, List.forall₂_map_right_iff, List.forall₂_same]
  exact h

/-- A map that is written entry by entry is read entry by entry, if its names are different. -/
theorem readMap_map {read : Reader β} {write : γ → Json} {result : γ → β} {es : List (String × γ)}
    (names : (es.map (·.1)).Nodup) (h : ∀ e ∈ es, read (write e.2).toDraft = .ok (result e.2)) :
    readMap read (Json.object (es.map fun e => (e.1, write e.2))).toDraft
      = .ok ⟨es.map fun e => (e.1, result e.2)⟩ := by
  -- members are read in order, and are made a map afterwards
  have hmembers : readMembers read none (draftMembers (es.map fun e => (e.1, write e.2)))
      = .ok (es.map fun e => (e.1, result e.2)) := by
    clear names
    induction es with
    | nil => rfl
    | cons e rest ih =>
      obtain ⟨he, hrest⟩ := List.forall_mem_cons.1 h
      rw [List.map_cons, draftMembers, readMembers, he, ih hrest]
      rfl
  have hnames : ((es.map fun e => (e.1, result e.2)).map (·.1)).Nodup := by
    rw [List.map_map]
    exact names
  show (readMembers read none (draftMembers _)).map OrderedMap.ofList = _
  rw [hmembers, Except.map, OrderedMap.ofList_of_nodup hnames]

/-- A map with one entry. -/
theorem readMap_member {read : Reader β} {j : Json} {b : β} (h : read j.toDraft = .ok b)
    (name : String) : readMap read (Json.object [(name, j)]).toDraft = .ok ⟨[(name, b)]⟩ := by
  have hmembers : readMembers read none (draftMembers [(name, j)]) = .ok [(name, b)] := by
    rw [draftMembers, readMembers, h]
    rfl
  show (readMembers read none (draftMembers [(name, j)])).map OrderedMap.ofList = _
  rw [hmembers]
  rfl

/-- Null is read as nothing, everything else as something. -/
theorem readOption_eq_ok {read : Reader β} {j : Json} {o : Option β} :
    readOption read j.toDraft = .ok o
      ↔ (j = .null ∧ none = o) ∨ (j ≠ .null ∧ ∃ b, read j.toDraft = .ok b ∧ some b = o) := by
  cases j <;> simp [toDraft, readOption, map_eq_ok]

mutual

/-- A document that is passed over has no break. -/
theorem passing_toDraft : ∀ j : Json, j.toDraft.passing = none
  | .null => rfl
  | .bool _ => rfl
  | .number _ => rfl
  | .string _ => rfl
  | .array elements => passingElements_draft elements
  | .object members => passingMembers_draft members

/-- The elements of a document have no flaw that reading them in passing could come upon. -/
theorem passingElements_draft : ∀ js : List Json, passingElements none (draftElements js) = none
  | [] => rfl
  | j :: rest => by
    rw [draftElements, passingElements, passing_toDraft j, passingElements_draft rest]
    rfl

/-- The values of members have no flaw that reading them in passing could come upon. -/
theorem passingMembers_draft : ∀ ms : List (String × Json),
    passingMembers none (draftMembers ms) = none
  | [] => rfl
  | (_, j) :: rest => by
    simp [draftMembers, passingMembers, passing_toDraft j, passingMembers_draft rest]

end

/-! ## The fields of a record -/

/-- What a document holds for a field: the member of its name, or the element at its place. -/
def field? (j : Json) (name : String) (place : Nat) : Option Json :=
  match j with
  | .object members => lookup? name members
  | .array elements => elements[place]?
  | _ => none

/-- Reads what a document holds for a field. -/
def readPresent (read : Reader β) (absent : β) : Option Json → Except ReadError β
  | none => .ok absent
  | some j => read j.toDraft

theorem readPresent_some {read : Reader β} {absent : β} {j : Json} :
    readPresent read absent (some j) = read j.toDraft := rfl

/-- What a generic value holds for a field is a generic value. -/
theorem sorted_of_field? {i j : Json} {name : String} {place : Nat} (h : i.Sorted)
    (hj : i.field? name place = some j) : j.Sorted := by
  cases i with
  | object ms => exact sorted_of_get? h hj
  | array js => exact sortedElements_iff.1 h j (List.mem_of_getElem? hj)
  | _ => cases hj

namespace RecordField

/-- The field is read into what `get` shows of the record. -/
def Fills (field : RecordField α) (read : Reader β) (get : α → β) : Prop :=
  ∀ d a, (field.fill d a).map get = read d

/-- The field does not touch what `get` shows of the record. -/
def Spares (field : RecordField α) (get : α → β) : Prop :=
  ∀ d a a', field.fill d a = .ok a' → get a' = get a

/-- The field can be read from its member, if there is one. -/
def Readable (field : RecordField α) (ms : List (String × Json)) : Prop :=
  ∀ j, lookup? field.name ms = some j → ∀ a, ∃ a', field.fill j.toDraft a = .ok a'

section

variable {name : String} {presence : Presence} {read : Reader β} {set : β → α → α}

@[simp] theorem name_of : (of name presence read set).name = name := rfl

@[simp] theorem presence_of : (of name presence read set).presence = presence := rfl

theorem fill_of {d : Draft} {a : α} {b : β} (h : read d = .ok b) :
    (of name presence read set).fill d a = .ok (set b a) :=
  map_eq_ok.2 ⟨b, h, rfl⟩

/-- A field is read into what its setter sets. -/
@[simp] theorem fills_of {get : α → β} (h : ∀ b a, get (set b a) = b) :
    (of name presence read set).Fills read get := by
  intro d a
  show ((read d).map fun b => set b a).map get = read d
  cases read d with
  | error e => rfl
  | ok b => exact congrArg Except.ok (h b a)

/-- A field does not touch what its setter leaves alone. -/
@[simp] theorem spares_of {get : α → γ} (h : ∀ b a, get (set b a) = get a) :
    (of name presence read set).Spares get := by
  intro d a a' hfill
  obtain ⟨b, -, rfl⟩ := map_eq_ok.1 hfill
  exact h b a

end

end RecordField

/-- What is shown of a record is what was read by the field of some name, and by no other. -/
structure Shows (fields : List (RecordField α)) (name : String) (read : Reader β) (get : α → β) :
    Prop where
  own : ∀ field ∈ fields, field.name = name → field.Fills read get
  others : ∀ field ∈ fields, field.name ≠ name → field.Spares get

section

variable {fields : List (RecordField α)} {name : String} {read : Reader β} {get : α → β}
  {seen : List String} {a a' : α} {out : List String × α} {m : String × Json}
  {ms : List (String × Json)}

/-- Filling the field of a name shows what was read for it. -/
theorem Shows.own_eq_ok (shows : Shows fields name read get) {field : RecordField α}
    (h : field ∈ fields) (hname : field.name = name) {d : Draft} (hfill : field.fill d a = .ok a') :
    read d = .ok (get a') := by
  rw [← shows.own field h hname d a, hfill]
  rfl

theorem readName_text (s : String) : readName (.text s) = .ok s := rfl

/-- A member that is no field is passed over. -/
theorem readFields_pass (h : fields.find? (·.name == m.1) = none) :
    readFields fields none seen a (draftMembers (m :: ms))
      = readFields fields none seen a (draftMembers ms) := by
  rw [draftMembers, readFields, readName_text, ok_bind]
  split
  · rw [passing_toDraft]
  · next field hfind =>
    rw [h] at hfind
    cases hfind

/-- A field that comes for the first time is read. -/
theorem readFields_field {field : RecordField α} (h : fields.find? (·.name == m.1) = some field)
    (new : m.1 ∉ seen) :
    readFields fields none seen a (draftMembers (m :: ms))
      = (field.fill m.2.toDraft a >>= fun a =>
          readFields fields none (m.1 :: seen) a (draftMembers ms)) := by
  rw [draftMembers, readFields, readName_text, ok_bind]
  split
  · next hnone =>
    rw [h] at hnone
    cases hnone
  · next field hfind =>
    rw [h] at hfind
    cases hfind
    exact if_neg (by simpa using new)

/-- A member is passed over, or else it is a field that has not been there before. -/
theorem readFields_inv (h : readFields fields none seen a (draftMembers (m :: ms)) = .ok out) :
    (fields.find? (·.name == m.1) = none
        ∧ readFields fields none seen a (draftMembers ms) = .ok out)
      ∨ ∃ field ∈ fields, field.name = m.1 ∧ m.1 ∉ seen ∧ ∃ a', field.fill m.2.toDraft a = .ok a'
        ∧ readFields fields none (m.1 :: seen) a' (draftMembers ms) = .ok out := by
  rw [draftMembers, readFields] at h
  obtain ⟨n, hn, h⟩ := bind_eq_ok.1 h
  cases hn
  split at h
  · next hnone =>
    -- no field is known by this name, so the member is passed over
    rw [passing_toDraft] at h
    exact .inl ⟨hnone, h⟩
  · next field hfind =>
    split at h
    · cases h
    · next hseen =>
      obtain ⟨a', hfill, hrest⟩ := bind_eq_ok.1 h
      refine .inr ⟨field, List.mem_of_find?_eq_some hfind, ?_, ?_, a', hfill, hrest⟩
      · simpa using List.find?_some hfind
      · simpa using hseen

/-- A field that has been there is not read again. -/
theorem Shows.readFields_seen (shows : Shows fields name read get) (hseen : name ∈ seen)
    (h : readFields fields none seen a (draftMembers ms) = .ok out) : get out.2 = get a := by
  induction ms generalizing seen a with
  | nil =>
    cases h
    rfl
  | cons m rest ih =>
    rcases readFields_inv h with ⟨-, hrest⟩ | ⟨field, hfield, hname, hnew, a', hfill, hrest⟩
    · exact ih hseen hrest
    · have hne : field.name ≠ name := fun heq => hnew (hname ▸ heq ▸ hseen)
      rw [ih (List.mem_cons_of_mem _ hseen) hrest, shows.others field hfield hne _ _ _ hfill]

/-- The member of its name is what a field is read from. -/
theorem Shows.readFields (shows : Shows fields name read get) (known : name ∈ fields.map (·.name))
    (hseen : name ∉ seen) (h : Json.readFields fields none seen a (draftMembers ms) = .ok out) :
    readPresent read (get a) (lookup? name ms) = .ok (get out.2) := by
  induction ms generalizing seen a with
  | nil =>
    cases h
    rfl
  | cons m rest ih =>
    rw [lookup?]
    rcases readFields_inv h with ⟨hnone, hrest⟩ | ⟨field, hfield, hname, -, a', hfill, hrest⟩
    · -- a member that is no field has another name
      obtain ⟨field, hfield, hname⟩ := List.mem_map.1 known
      have hne : m.1 ≠ name := fun heq => by
        have hnot := List.find?_eq_none.1 hnone field hfield
        simp [hname, heq] at hnot
      rw [if_neg hne]
      exact ih hseen hrest
    · by_cases heq : m.1 = name
      · rw [if_pos heq, shows.readFields_seen (heq ▸ List.mem_cons_self) hrest]
        exact shows.own_eq_ok hfield (hname.trans heq) hfill
      · rw [if_neg heq, ← shows.others field hfield (hname ▸ heq) _ _ _ hfill]
        refine ih (fun hmem => ?_) hrest
        exact (List.mem_cons.1 hmem).elim (fun h => heq h.symm) hseen

section

variable {short : Nat → ReadError} {surplus : ReadError} {index : Nat} {field : RecordField α}
  {rest : List (RecordField α)} {js : List Json}

/-- Where the array ends, the fields that are left have to be optional. -/
theorem readInOrder_end :
    readInOrder short surplus none index (field :: rest) (draftElements []) a
      = if field.presence = .defaulted then
          readInOrder short surplus none (index + 1) rest (draftElements []) a
        else .error (short index) := rfl

/-- Fields of other names do not touch what is shown. -/
theorem Shows.readInOrder_others (shows : Shows fields name read get)
    (hrest : ∀ field ∈ rest, field ∈ fields ∧ field.name ≠ name)
    (h : readInOrder short surplus none index rest (draftElements js) a = .ok a') :
    get a' = get a := by
  induction rest generalizing js index a with
  | nil =>
    -- elements that are missing leave their fields blank, and no other field writes this one
    cases js with
    | nil =>
      cases h
      rfl
    | cons j js => cases h
  | cons field rest ih =>
    obtain ⟨⟨hfield, hne⟩, hrest⟩ := List.forall_mem_cons.1 hrest
    cases js with
    | nil =>
      rw [readInOrder_end] at h
      split at h
      · exact ih hrest h
      · cases h
    | cons j js =>
      obtain ⟨b, hfill, h⟩ := bind_eq_ok.1 h
      rw [ih hrest h, shows.others field hfield hne _ _ _ hfill]

/-- The element at its place is what a field is read from. -/
theorem Shows.readInOrder (shows : Shows fields name read get) (sub : rest ⊆ fields)
    (different : (rest.map (·.name)).Nodup) {place : Nat}
    (known : (rest.map (·.name))[place]? = some name)
    (h : Json.readInOrder short surplus none index rest (draftElements js) a = .ok a') :
    readPresent read (get a) js[place]? = .ok (get a') := by
  induction rest generalizing js index a place with
  | nil => cases known
  | cons field rest ih =>
    obtain ⟨hfield, hsub⟩ := List.cons_subset.1 sub
    rw [List.map_cons, List.nodup_cons] at different
    cases place with
    | zero =>
      have hname : field.name = name := Option.some.inj known
      have hothers : ∀ f ∈ rest, f ∈ fields ∧ f.name ≠ name := fun f hf =>
        ⟨hsub hf, fun heq => different.1 (hname ▸ heq ▸ List.mem_map_of_mem hf)⟩
      cases js with
      | nil =>
        rw [readInOrder_end] at h
        split at h
        · rw [shows.readInOrder_others hothers h]
          rfl
        · cases h
      | cons j js =>
        obtain ⟨b, hfill, h⟩ := bind_eq_ok.1 h
        rw [shows.readInOrder_others hothers h]
        exact shows.own_eq_ok hfield hname hfill
    | succ place =>
      have hne : field.name ≠ name := fun heq =>
        different.1 (heq ▸ List.mem_of_getElem? (by simpa using known))
      have hknown : (rest.map (·.name))[place]? = some name := known
      cases js with
      | nil =>
        rw [readInOrder_end] at h
        split at h
        · -- there is nothing at the next place either
          show readPresent read (get a) ([] : List Json)[place]? = _
          exact ih hsub different.2 hknown h
        · cases h
      | cons j js =>
        obtain ⟨b, hfill, h⟩ := bind_eq_ok.1 h
        rw [← shows.others field hfield hne _ _ _ hfill, List.getElem?_cons_succ]
        exact ih hsub different.2 hknown h

end

/-- **A record that was read** has for each field what the document holds for it. -/
theorem Shows.readRecord (shows : Shows fields name read get)
    (different : (fields.map (·.name)).Nodup) (place : Nat)
    (known : (fields.map (·.name))[place]? = some name) {form : Form} {record : String} {j : Json}
    (h : Json.readRecord form record fields a j.toDraft = .ok a') :
    readPresent read (get a) (j.field? name place) = .ok (get a') := by
  cases j with
  | object ms =>
    obtain ⟨⟨seen, b⟩, hb, h⟩ := bind_eq_ok.1 h
    have hread := shows.readFields (List.mem_of_getElem? known) List.not_mem_nil hb
    dsimp only at h
    split at h
    · cases h
    · cases h
      exact hread
  | array js => exact shows.readInOrder (List.Subset.refl _) different known h
  | _ => cases h

/-! ## Objects that are read -/

/-- Fields are read if every member that belongs to one can be, and no name comes again. Members
that belong to no field are passed over. -/
theorem exists_readFields (names : (ms.map (·.1)).Nodup) (new : ∀ m ∈ ms, m.1 ∉ seen)
    (fills : ∀ m ∈ ms, ∀ field ∈ fields, field.name = m.1 →
      ∀ a, ∃ a', field.fill m.2.toDraft a = .ok a') :
    ∃ seen' a', Json.readFields fields none seen a (draftMembers ms) = .ok (seen', a')
      ∧ seen ⊆ seen' ∧ ∀ m ∈ ms, m.1 ∈ fields.map (·.name) → m.1 ∈ seen' := by
  induction ms generalizing seen a with
  | nil => exact ⟨seen, a, rfl, List.Subset.refl _, nofun⟩
  | cons m rest ih =>
    obtain ⟨hm, hrest⟩ := List.forall_mem_cons.1 fills
    obtain ⟨hnew, hnewRest⟩ := List.forall_mem_cons.1 new
    rw [List.map_cons, List.nodup_cons] at names
    cases hfind : fields.find? (·.name == m.1) with
    | none =>
      obtain ⟨seen', a', hread, hsub, hknown⟩ := ih (a := a) names.2 hnewRest hrest
      refine ⟨seen', a', (readFields_pass hfind).trans hread, hsub,
        List.forall_mem_cons.2 ⟨fun hmem => ?_, hknown⟩⟩
      obtain ⟨field, hfield, hname⟩ := List.mem_map.1 hmem
      have hnot := List.find?_eq_none.1 hfind field hfield
      simp [hname] at hnot
    | some field =>
      have hname : field.name = m.1 := by simpa using List.find?_some hfind
      -- the field takes the member, and may be there only once
      obtain ⟨b, hb⟩ := hm field (List.mem_of_find?_eq_some hfind) hname a
      -- the names after it are new, now that this one has been there
      have hnewNext : ∀ m' ∈ rest, m'.1 ∉ m.1 :: seen := fun m' hm' hmem => by
        rcases List.mem_cons.1 hmem with heq | hold
        · exact names.1 (heq ▸ List.mem_map_of_mem hm')
        · exact hnewRest m' hm' hold
      obtain ⟨seen', a', hread, hsub, hknown⟩ := ih (a := b) names.2 hnewNext hrest
      refine ⟨seen', a', ?_, fun n hn => hsub (List.mem_cons_of_mem _ hn),
        List.forall_mem_cons.2 ⟨fun _ => hsub List.mem_cons_self, hknown⟩⟩
      rw [readFields_field hfind hnew, hb]
      exact hread

/-- Nothing is missed once the required fields have been there. -/
theorem readRecord_of_readFields {seen' : List String}
    (h : Json.readFields fields none [] a (draftMembers ms) = .ok (seen', a'))
    (required : ∀ field ∈ fields, field.presence = .required → field.name ∈ seen') (form : Form)
    (record : String) : Json.readRecord form record fields a (Json.object ms).toDraft = .ok a' := by
  have hmissing : missing? fields seen' = none := by
    rw [missing?, Option.map_eq_none_iff, List.find?_eq_none]
    intro field hfield hmissed
    rw [Bool.and_eq_true, beq_iff_eq] at hmissed
    simp [required field hfield hmissed.1] at hmissed
  rw [toDraft, Json.readRecord, enter, if_neg Bool.false_ne_true, h, ok_bind]
  dsimp only
  split
  · next field hsome =>
    rw [hmissing] at hsome
    cases hsome
  · rfl

/-- **An object is read** if its names are different, its fields can be read, and no required field
is missed. -/
theorem exists_readRecord (names : (ms.map (·.1)).Nodup)
    (readable : ∀ field ∈ fields, field.Readable ms)
    (required : ∀ field ∈ fields, field.presence = .required → field.name ∈ ms.map (·.1))
    (form : Form) (record : String) (blank : α) :
    ∃ a, Json.readRecord form record fields blank (Json.object ms).toDraft = .ok a := by
  have fills : ∀ m ∈ ms, ∀ field ∈ fields, field.name = m.1 →
      ∀ a, ∃ a', field.fill m.2.toDraft a = .ok a' := fun m hm field hfield hname =>
    readable field hfield m.2 (hname ▸ lookup?_of_mem names hm)
  obtain ⟨seen', a', hread, -, hknown⟩ :=
    exists_readFields (a := blank) names (fun _ _ => List.not_mem_nil) fills
  refine ⟨a', readRecord_of_readFields hread (fun field hfield hrequired => ?_) form record⟩
  obtain ⟨m, hm, hname⟩ := List.mem_map.1 (required field hfield hrequired)
  exact hname ▸ hknown m hm (hname ▸ List.mem_map_of_mem hfield)

/-- An object with one field. -/
theorem readRecord_member {field : RecordField α} (h : fields.find? (·.name == name) = some field)
    (required : ∀ f ∈ fields, f.presence = .required → f.name = name) {j : Json}
    (hfill : field.fill j.toDraft a = .ok a') (form : Form) (record : String) :
    Json.readRecord form record fields a (Json.object [(name, j)]).toDraft = .ok a' := by
  have hread : Json.readFields fields none [] a (draftMembers [(name, j)]) = .ok ([name], a') := by
    rw [readFields_field (m := (name, j)) h List.not_mem_nil, hfill]
    rfl
  refine readRecord_of_readFields hread (fun f hf hrequired => ?_) form record
  exact List.mem_singleton.2 (required f hf hrequired)

end

end Json

end TableQuery
