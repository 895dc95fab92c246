import TableQuery.Proofs.JsonText.Depth

/-!
# Records, part by part

What is written is read again (`Returns`): from the document as it was, and from its generic value
with the entries of its maps in the order of their names. A text is read likewise if it does not lie
too deep, and else not at all. A record is written and read part by part, so it comes back if each
of its parts does. A part that is left out comes back as what the record has where nothing is said.

* **`Returns.list`**, **`Returns.map`** — lists and maps of what comes back.
* **`Part.returns_always`**, **`returns_ifSome`**, **`returns_ifEntries`** — the parts of a record,
  by how they are left out.
* **`Describes.returns`** — a record whose parts come back.
* **`Returns.text`**, **`Returns.genericText`** — what comes back from a text, and when.
-/

namespace TableQuery.Wire

open Json (Form Reader RecordField readList readMap readOption readPresent readRecord)

variable {α β : Type}

/-! ## Coming back -/

/-- A value that is written as a document is read from it, and from its generic value as
`sorted`. -/
structure Returns (write : α → Json) (read : Form → Reader α) (a sorted : α) : Prop where
  whole : (write a).Whole
  fathomed : ∀ form, Json.Fathoms (read form) (write a)
  document : ∀ form, read form (write a).toDraft = .ok a
  generic : ∀ form, read form (write a).canonical.toDraft = .ok sorted

section

variable {write : α → Json} {read : Form → Reader α} {a sorted : α}

/-- **From a text**, which is read if and only if it does not lie too deep. -/
theorem Returns.text (h : Returns write read a sorted) (form : Form) (b : α) :
    Json.readText (read form) (write a).print = .ok b
      ↔ (write a).depth ≤ Json.nestingLimit ∧ b = a := by
  constructor
  · intro hread
    have depth := (h.fathomed form).of_text h.whole hread
    rw [Json.readText_print _ h.whole depth, h.document] at hread
    exact ⟨depth, (Except.ok.inj hread).symm⟩
  · rintro ⟨depth, rfl⟩
    rw [Json.readText_print _ h.whole depth, h.document]

/-- By way of a generic value, a text is read as the sorted value, if it does not lie too deep. -/
theorem Returns.genericText (h : Returns write read a sorted) (form : Form) (b : α) :
    Json.readGeneric (read form) (write a).print = .ok b
      ↔ (write a).depth ≤ Json.nestingLimit ∧ b = sorted := by
  by_cases depth : (write a).depth ≤ Json.nestingLimit
  · rw [Json.readGeneric_print _ h.whole depth, h.generic, Except.ok.injEq]
    exact ⟨fun heq => ⟨depth, heq.symm⟩, fun heq => heq.2.symm⟩
  · obtain ⟨f, hf⟩ := Json.readGeneric_deep (read form) h.whole depth
    rw [hf]
    exact ⟨nofun, fun heq => absurd heq.1 depth⟩

theorem returns_string (s : String) : Returns .string (fun _ => Json.readString) s s :=
  ⟨trivial, fun _ => Json.fathoms_of_depth rfl, fun _ => rfl, fun _ => rfl⟩

theorem returns_bool (b : Bool) : Returns .bool (fun _ => Json.readBool) b b :=
  ⟨trivial, fun _ => Json.fathoms_of_depth rfl, fun _ => rfl, fun _ => rfl⟩

/-- Counts come back as they are: they have fewer bits than the numbers of a document. -/
theorem returns_int32 (n : Int32) : Returns int32Json (fun _ => Json.readInt32) n n := by
  have hmin := n.minValue_le_toInt
  have hmax := n.toInt_le
  have hread : Json.readInt32 (int32Json n).toDraft = .ok n := by
    show (if _ then Except.ok (Int32.ofInt n.toInt) else _) = _
    rw [if_pos ⟨hmin, hmax⟩, Int32.ofInt_toInt]
  -- both bounds are those of the wider type, too
  have hmin64 : Int64.minValue.toInt ≤ Int32.minValue.toInt := by decide
  have hmax64 : Int32.maxValue.toInt < UInt64.size := by decide
  exact ⟨⟨hmin64.trans hmin, hmax.trans_lt hmax64⟩, fun _ => Json.fathoms_of_depth rfl,
    fun _ => hread, fun _ => hread⟩

/-- The numbers in an array are whole if those of each element are. -/
theorem wholeElements_iff {js : List Json} : Json.WholeElements js ↔ ∀ j ∈ js, j.Whole := by
  induction js with
  | nil => simp [Json.WholeElements]
  | cons j rest ih => rw [Json.WholeElements, ih, List.forall_mem_cons]

/-- The numbers in an object are whole if those of each value are. -/
theorem wholeMembers_iff {ms : List (String × Json)} :
    Json.WholeMembers ms ↔ ∀ m ∈ ms, m.2.Whole := by
  induction ms with
  | nil => simp [Json.WholeMembers]
  | cons m rest ih => rw [Json.WholeMembers, ih, List.forall_mem_cons]

theorem canonical_listJson (write : α → Json) (as : List α) :
    (listJson write as).canonical = .array (as.map fun a => (write a).canonical) := by
  rw [listJson, Json.canonical, Json.canonicalElements_eq, List.map_map]
  rfl

variable {f : α → α}

/-- **A list** of what comes back comes back. -/
theorem Returns.list {as : List α} (h : ∀ a ∈ as, Returns write read a (f a)) :
    Returns (listJson write) (fun form => readList (read form)) as (as.map f) where
  whole := wholeElements_iff.2 fun j hj => by
    obtain ⟨a, ha, rfl⟩ := List.mem_map.1 hj
    exact (h a ha).whole
  fathomed form := .list fun j hj => by
    obtain ⟨a, ha, rfl⟩ := List.mem_map.1 hj
    exact (h a ha).fathomed form
  document form := by
    have hread : readList (read form) (listJson write as).toDraft = .ok (as.map id) :=
      Json.readList_map fun a ha => (h a ha).document form
    rwa [List.map_id] at hread
  generic form := by
    rw [canonical_listJson]
    exact Json.readList_map fun a ha => (h a ha).generic form

/-- **A map** of what comes back comes back, and its generic value in the order of its names. -/
theorem Returns.map {m : OrderedMap α} (distinct : m.Distinct)
    (h : ∀ e ∈ m.entries, Returns write read e.2 (f e.2)) :
    Returns (mapJson write) (fun form => readMap (read form)) m (m.mapValues f).byBytes where
  whole := wholeMembers_iff.2 fun j hj => by
    obtain ⟨e, he, rfl⟩ := List.mem_map.1 hj
    exact (h e he).whole
  fathomed form := .map fun m hm => by
    obtain ⟨e, he, rfl⟩ := List.mem_map.1 hm
    exact (h e he).fathomed form
  document form := by
    have hread := @Json.readMap_map α α (read form) write id m.entries distinct fun e he =>
      (h e he).document form
    rw [mapJson, hread]
    simp
  generic form := by
    -- the names are kept in writing, and sorting the members sorts the entries
    have hnames : ((Json.canonicalMembers (m.entries.map fun e => (e.1, write e.2))).map
        (·.1)).Nodup := by
      rw [Json.map_fst_canonicalMembers, List.map_map]
      exact distinct
    have hcanonical : (mapJson write m).canonical
        = .object ((sortEntries m.entries).map fun e => (e.1, (write e.2).canonical)) := by
      rw [mapJson, Json.canonical, Json.sortMembers_eq hnames, Json.canonicalMembers_eq,
        List.map_map, ← sortEntries_map fun a => (write a).canonical]
      rfl
    have hentries : ∀ e ∈ sortEntries m.entries,
        read form (write e.2).canonical.toDraft = .ok (f e.2) := fun e he =>
      (h e ((sortEntries_perm m.entries).subset he)).generic form
    have hread := @Json.readMap_map α α (read form) (fun a => (write a).canonical) f
      (sortEntries m.entries) (OrderedMap.Distinct.byBytes distinct) hentries
    rw [hcanonical, hread, OrderedMap.byBytes, OrderedMap.mapValues, sortEntries_map]

end

/-! ## Parts of records -/

/-- A part of a record: what the record has there, how it is read, and the member that it is written
as, if it is not left out. -/
structure Part (α : Type) where
  name : String
  Value : Type
  read : Form → Reader Value
  get : α → Value
  written : α → Option (String × Json)
  named : ∀ a m, written a = some m → m.1 = name

namespace Part

section

variable (name : String) (get : α → β) (write : β → Json) (read : Form → Reader β)

def always : Part α where
  name
  Value := β
  read
  get
  written a := Wire.always name (write (get a))
  named _ _ h := by cases h; rfl

end

def ifSome (name : String) (get : α → Option β) (write : β → Json) (read : Form → Reader β) :
    Part α where
  name
  Value := Option β
  read form := readOption (read form)
  get
  written a := Wire.ifSome name write (get a)
  named a m h := by
    obtain ⟨_, -, rfl⟩ := Option.map_eq_some_iff.1 h
    rfl

def ifEntries (name : String) (get : α → OrderedMap β) (write : OrderedMap β → Json)
    (read : Form → Reader (OrderedMap β)) : Part α where
  name
  Value := OrderedMap β
  read
  get
  written a := Wire.ifEntries name write (get a)
  named a m h := by
    rw [Wire.ifEntries] at h
    split at h <;> cases h
    rfl

def ifElements (name : String) (get : α → List β) (write : List β → Json)
    (read : Form → Reader (List β)) : Part α where
  name
  Value := List β
  read
  get
  written a := Wire.ifElements name write (get a)
  named a m h := by
    rw [Wire.ifElements] at h
    split at h <;> cases h
    rfl

/-- The part is read from its member as the record has it, and from the generic value of the member
as `sorted` has it; if it is left out, this is what `blank` has. -/
structure Returns (p : Part α) (blank a sorted : α) : Prop where
  whole : ∀ m, p.written a = some m → m.2.Whole
  fathomed : ∀ form m, p.written a = some m → Json.Fathoms (p.read form) m.2
  document : ∀ form, readPresent (p.read form) (p.get blank) ((p.written a).map (·.2))
    = .ok (p.get a)
  generic : ∀ form, readPresent (p.read form) (p.get blank)
    ((p.written a).map fun m => m.2.canonical) = .ok (p.get sorted)

section

variable {name : String} {blank a sorted : α}

/-- A part that is left out. -/
theorem Returns.of_none {p : Part α} (h : p.written a = none) (ha : p.get a = p.get blank)
    (hsorted : p.get sorted = p.get blank) : p.Returns blank a sorted where
  whole m hm := by cases h.symm.trans hm
  fathomed form m hm := by cases h.symm.trans hm
  document form := by rw [h, ha]; rfl
  generic form := by rw [h, hsorted]; rfl

/-- A part that is always written comes back if its value does. -/
theorem returns_always {get : α → β} {write : β → Json} {read : Form → Reader β}
    (h : Wire.Returns write read (get a) (get sorted)) :
    (Part.always name get write read).Returns blank a sorted where
  whole _ hm := by
    cases hm
    exact h.whole
  fathomed form _ hm := by
    cases hm
    exact h.fathomed form
  document := h.document
  generic := h.generic

/-- Nothing becomes null by being sorted. -/
theorem canonical_ne_null {j : Json} (h : j ≠ .null) : j.canonical ≠ .null := by
  cases j with
  | null => exact absurd rfl h
  | _ => exact nofun

/-- An optional part comes back if its value does; left out, it comes back as nothing. Its value
must not be written as null, since that is read as nothing. -/
theorem returns_ifSome {get : α → Option β} {write : β → Json} {read : Form → Reader β}
    {f : β → β} (hblank : get blank = none) (null : ∀ b, write b ≠ .null)
    (hsorted : get sorted = (get a).map f)
    (h : ∀ b, get a = some b → Wire.Returns write read b (f b)) :
    (Part.ifSome name get write read).Returns blank a sorted := by
  -- left out, or written as a member that is not null
  cases hget : get a with
  | none =>
    rw [hget] at hsorted
    exact .of_none (congrArg (Option.map _) hget) (hget.trans hblank.symm)
      (hsorted.trans hblank.symm)
  | some b =>
    have hb := h b hget
    have hwritten : (Part.ifSome name get write read).written a = some (name, write b) :=
      congrArg (Option.map _) hget
    rw [hget] at hsorted
    refine ⟨fun m hm => ?_, fun form m hm => ?_, fun form => ?_, fun form => ?_⟩
    · cases hwritten.symm.trans hm
      exact hb.whole
    · cases hwritten.symm.trans hm
      exact (hb.fathomed form).option
    · rw [hwritten]
      show readOption (read form) (write b).toDraft = .ok (get a)
      exact Json.readOption_eq_ok.2 (.inr ⟨null b, b, hb.document form, hget.symm⟩)
    · rw [hwritten]
      show readOption (read form) (write b).canonical.toDraft = .ok (get sorted)
      exact Json.readOption_eq_ok.2
        (.inr ⟨canonical_ne_null (null b), f b, hb.generic form, hsorted.symm⟩)

/-- A map that is left out where it is empty comes back if the map does. -/
theorem returns_ifEntries {get : α → OrderedMap β} {write : OrderedMap β → Json}
    {read : Form → Reader (OrderedMap β)} (hblank : get blank = ∅)
    (hempty : (get a).isEmpty → get sorted = ∅)
    (h : Wire.Returns write read (get a) (get sorted)) :
    (Part.ifEntries name get write read).Returns blank a sorted := by
  -- an empty map is not written, and a member that is not there is read as an empty map
  by_cases hget : (get a).isEmpty
  · have ha : get a = ∅ := OrderedMap.eq_empty_of_isEmpty hget
    exact .of_none (if_pos hget) (ha.trans hblank.symm) ((hempty hget).trans hblank.symm)
  · have hwritten : (Part.ifEntries name get write read).written a = some (name, write (get a)) :=
      if_neg hget
    refine ⟨fun m hm => ?_, fun form m hm => ?_, fun form => ?_, fun form => ?_⟩
    · cases hwritten.symm.trans hm
      exact h.whole
    · cases hwritten.symm.trans hm
      exact h.fathomed form
    · rw [hwritten]
      exact h.document form
    · rw [hwritten]
      exact h.generic form

end

end Part

/-! ## Records -/

/-- The members that a record is written as. -/
def membersOf (parts : List (Part α)) (a : α) : List (String × Json) :=
  (parts.map (·.written a)).filterMap id

/-- A type of records is written and read in these parts. -/
structure Describes (parts : List (Part α)) (fields : Form → List (RecordField α))
    (write : α → Json) : Prop where
  different : (parts.map (·.name)).Nodup
  names : ∀ form, (fields form).map (·.name) = parts.map (·.name)
  shows : ∀ form, ∀ p ∈ parts, Json.Shows (fields form) p.name (p.read form) p.get
  writes : ∀ a, write a = .object (membersOf parts a)
  /-- A part that must be there is never left out. -/
  required : ∀ form, ∀ field ∈ fields form, field.presence = .required →
    ∃ p ∈ parts, p.name = field.name ∧ ∀ a, p.written a ≠ none
  /-- There is nothing else to a record. -/
  ext : ∀ a a', (∀ p ∈ parts, p.get a = p.get a') → a = a'

section

variable {parts : List (Part α)} {fields : Form → List (RecordField α)} {write : α → Json}
  {a a' : α}

/-- The members of a record are those of its parts that are not left out. -/
theorem mem_membersOf {m : String × Json} :
    m ∈ membersOf parts a ↔ ∃ p ∈ parts, p.written a = some m := by
  simp [membersOf]

/-- Parts with different names are written as members with different names. -/
theorem nodup_membersOf (different : (parts.map (·.name)).Nodup) :
    ((membersOf parts a).map (·.1)).Nodup := by
  -- some parts write nothing, so the names that are written are some of the names, in order
  refine List.Nodup.sublist ?_ different
  clear different
  induction parts with
  | nil => exact List.Sublist.refl []
  | cons p rest ih =>
    cases hwritten : p.written a with
    | none =>
      have hmembers : membersOf (p :: rest) a = membersOf rest a := by
        simp [membersOf, hwritten]
      rw [hmembers, List.map_cons]
      exact ih.cons _
    | some m =>
      have hmembers : membersOf (p :: rest) a = m :: membersOf rest a := by
        simp [membersOf, hwritten]
      rw [hmembers, List.map_cons, List.map_cons, p.named a m hwritten]
      exact ih.cons_cons _

/-- The member of its name is what a part is written as. -/
theorem lookup?_membersOf (different : (parts.map (·.name)).Nodup) {p : Part α} (hp : p ∈ parts) :
    Json.lookup? p.name (membersOf parts a) = (p.written a).map (·.2) := by
  cases hwritten : p.written a with
  | none =>
    cases hlookup : Json.lookup? p.name (membersOf parts a) with
    | none => rfl
    | some j =>
      -- no other part has this name
      obtain ⟨q, hq, hmember⟩ := mem_membersOf.1 (Json.mem_of_lookup? hlookup)
      have hname : p.name = q.name := q.named a _ hmember
      cases List.inj_on_of_nodup_map different hp hq hname
      cases hwritten.symm.trans hmember
  | some m =>
    rw [← p.named a m hwritten]
    exact Json.lookup?_of_mem (nodup_membersOf different) (mem_membersOf.2 ⟨p, hp, hwritten⟩)

/-- What stands under the names of the parts is what the record is read as. -/
theorem Describes.read_of_members (d : Describes parts fields write) {form : Form}
    {record : String} {blank : α} {ms : List (String × Json)} (names : (ms.map (·.1)).Nodup)
    (required : ∀ p ∈ parts, (∀ a, p.written a ≠ none) → p.name ∈ ms.map (·.1))
    (h : ∀ p ∈ parts, readPresent (p.read form) (p.get blank) (Json.lookup? p.name ms)
      = .ok (p.get a)) :
    readRecord form record (fields form) blank (Json.object ms).toDraft = .ok a := by
  have readable : ∀ field ∈ fields form, field.Readable ms := by
    intro field hfield j hj b
    have hname : field.name ∈ parts.map (·.name) :=
      d.names form ▸ List.mem_map_of_mem hfield
    obtain ⟨p, hp, hname⟩ := List.mem_map.1 hname
    have hread := h p hp
    rw [hname, hj] at hread
    have hfill := (d.shows form p hp).own field hfield hname.symm j.toDraft b
    obtain ⟨b', hb', -⟩ := map_eq_ok.1 (hfill.trans hread)
    exact ⟨b', hb'⟩
  have present : ∀ field ∈ fields form, field.presence = .required →
      field.name ∈ ms.map (·.1) := by
    intro field hfield hrequired
    obtain ⟨p, hp, hname, hwritten⟩ := d.required form field hfield hrequired
    exact hname ▸ required p hp hwritten
  obtain ⟨b, hb⟩ := Json.exists_readRecord names readable present form record blank
  have different : ((fields form).map (·.name)).Nodup := d.names form ▸ d.different
  -- whatever is read, each of its parts is what stands under its name
  have heq : b = a := by
    refine d.ext b a fun p hp => ?_
    have hname : p.name ∈ (fields form).map (·.name) := d.names form ▸ List.mem_map_of_mem hp
    obtain ⟨place, hplace⟩ := List.getElem?_of_mem hname
    have hpart := (d.shows form p hp).readRecord different place hplace hb
    exact Except.ok.inj (hpart.symm.trans (h p hp))
  exact heq ▸ hb

/-- **A record comes back** if its parts do. -/
theorem Describes.returns (d : Describes parts fields write) (record : String) {blank sorted : α}
    (h : ∀ p ∈ parts, p.Returns blank a sorted) :
    Returns write (fun form => readRecord form record (fields form) blank) a sorted where
  whole := by
    rw [d.writes]
    refine wholeMembers_iff.2 fun m hm => ?_
    obtain ⟨p, hp, hwritten⟩ := mem_membersOf.1 hm
    exact (h p hp).whole m hwritten
  fathomed form := by
    rw [d.writes]
    -- every member that was written is known to the reader, and is read by its own part
    refine .record (fun m hm => ?_) (fun m hm field hfield hname c room c' hfill => ?_) form
      record blank
    · obtain ⟨p, hp, hwritten⟩ := mem_membersOf.1 hm
      exact d.names form ▸ p.named a m hwritten ▸ List.mem_map_of_mem hp
    · obtain ⟨p, hp, hwritten⟩ := mem_membersOf.1 hm
      have hown := (d.shows form p hp).own_eq_ok hfield (hname.trans (p.named _ m hwritten)) hfill
      exact (h p hp).fathomed form m hwritten room _ hown
  document form := by
    rw [d.writes]
    refine d.read_of_members (nodup_membersOf d.different) (fun p hp hwritten => ?_)
      fun p hp => ?_
    · obtain ⟨m, hm⟩ := Option.ne_none_iff_exists'.1 (hwritten a)
      exact p.named a m hm ▸ List.mem_map_of_mem (mem_membersOf.2 ⟨p, hp, hm⟩)
    · rw [lookup?_membersOf d.different hp]
      exact (h p hp).document form
  generic form := by
    -- sorting the members keeps their names apart, so each part still finds its own
    have names := nodup_membersOf (a := a) d.different
    rw [d.writes, Json.canonical]
    refine d.read_of_members (Json.sortMembers_inOrder _).nodup (fun p hp hwritten => ?_)
      fun p hp => ?_
    · obtain ⟨m, hm⟩ := Option.ne_none_iff_exists'.1 (hwritten a)
      have hlookup := Json.lookup?_sortMembers names p.name
      rw [lookup?_membersOf d.different hp, hm] at hlookup
      exact List.mem_map_of_mem (Json.mem_of_lookup? hlookup)
    · rw [Json.lookup?_sortMembers names, lookup?_membersOf d.different hp, Option.map_map]
      exact (h p hp).generic form

/-- A record with one part, which must be there. -/
theorem Describes.single {name : String} {get : α → β} {set : β → α → α}
    {writePart : β → Json} {read : Reader β} (writes : ∀ a,
      write a = recordJson [Wire.always name (writePart (get a))])
    (get_set : ∀ b a, get (set b a) = b) (ext : ∀ a a', get a = get a' → a = a') :
    Describes [Part.always name get writePart fun _ => read]
      (fun _ => [.of name .required read set]) write where
  different := List.nodup_singleton name
  names _ := rfl
  shows _ p hp := by
    cases List.mem_singleton.1 hp
    constructor <;> simp [Part.always, get_set]
  writes := writes
  required _ field hfield _ := by
    cases List.mem_singleton.1 hfield
    exact ⟨_, List.mem_cons_self, rfl, fun _ => Option.some_ne_none _⟩
  ext a a' h := ext a a' (h _ List.mem_cons_self)

/-- A record of one part that is always written comes back if the value of the part does. -/
theorem Describes.returns_single {name : String} {get : α → β} {writePart : β → Json}
    {read : Form → Reader β} (d : Describes [Part.always name get writePart read] fields write)
    (record : String) {blank sorted : α} (h : Returns writePart read (get a) (get sorted)) :
    Returns write (fun form => readRecord form record (fields form) blank) a sorted := by
  refine d.returns record fun p hp => ?_
  cases List.mem_singleton.1 hp
  exact Part.returns_always h

end

end TableQuery.Wire
