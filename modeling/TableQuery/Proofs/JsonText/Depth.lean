import TableQuery.Proofs.JsonText.Printed
import TableQuery.Proofs.Records
import TableQuery.Proofs.SortedForm

/-!
# Documents that lie too deep

A reader that goes into every container of a document makes nothing of it if one of them lies too
deep (`Fathoms`). Members that are no fields of a record are passed over at any depth, so it takes
known members for a record to be fathomed.

* **`Fathoms.list`**, **`Fathoms.map`**, **`Fathoms.record`** — containers whose parts are fathomed.
* **`AttributeValue.fathoms_toJson`** — attribute values, by induction on the value.
* **`Fathoms.of_text`** — a text of such a document is read only if it keeps the nesting limit.
-/

namespace TableQuery

namespace Json

variable {α : Type} {read : Reader α} {j : Json}

/-- The reader goes into every container of the document. -/
def Fathoms (read : Reader α) (j : Json) : Prop :=
  ∀ room a, read (j.draftWithin room) = .ok a → j.depth ≤ room

/-- A printed document is read from its text only if it does not lie too deep. -/
theorem Fathoms.of_text (h : Fathoms read j) (whole : j.Whole) {a : α}
    (hread : readText read j.print = .ok a) : j.depth ≤ nestingLimit := by
  rw [readText, ofText_print whole] at hread
  obtain ⟨b, hb, -⟩ := bind_eq_ok.1 hread
  exact h _ b hb

theorem fathoms_of_depth (h : j.depth = 0) : Fathoms read j := fun _ _ _ => by omega

/-- What is read where there may be nothing is fathomed if it is there. -/
theorem Fathoms.option (h : Fathoms read j) : Fathoms (readOption read) j := by
  intro room o ho
  cases j with
  | null => exact Nat.zero_le room
  | _ =>
    obtain ⟨a, ha, -⟩ := map_eq_ok.1 ho
    exact h room a ha

/-- Where a container is entered, there is room for it and for what lies in it. -/
theorem depth_le_of_enter {room depth : Nat} {inside : Except ReadError α} {a : α}
    (h : enter (room == 0) inside = .ok a) (hinside : inside = .ok a → depth ≤ room - 1) :
    depth + 1 ≤ room := by
  rw [enter] at h
  split at h
  · cases h
  · next hroom =>
    have hpos : room ≠ 0 := fun hzero => hroom (beq_iff_eq.2 hzero)
    have hdepth := hinside h
    omega

/-- A list is fathomed if its elements are. -/
theorem Fathoms.list {js : List Json} (h : ∀ j ∈ js, Fathoms read j) :
    Fathoms (readList read) (.array js) := by
  -- the reader stops at the first element that it makes nothing of, so it has gone into all of them
  have helements (room : Nat) (as : List α)
      (hread : readElements read none (draftElementsWithin room js) = .ok as) :
      depthElements js ≤ room := by
    induction js generalizing as with
    | nil => exact Nat.zero_le room
    | cons j rest ih =>
      obtain ⟨hj, hrest⟩ := List.forall_mem_cons.1 h
      obtain ⟨a, ha, hread⟩ := bind_eq_ok.1 hread
      obtain ⟨more, hmore, -⟩ := bind_eq_ok.1 hread
      exact max_le (hj room a ha) (ih hrest more hmore)
  exact fun room as hread => depth_le_of_enter hread (helements _ as)

/-- A map is fathomed if its values are. -/
theorem Fathoms.map {ms : List (String × Json)} (h : ∀ m ∈ ms, Fathoms read m.2) :
    Fathoms (readMap read) (.object ms) := by
  have hmembers (room : Nat) (as : List (String × α))
      (hread : readMembers read none (draftMembersWithin room ms) = .ok as) :
      depthMembers ms ≤ room := by
    induction ms generalizing as with
    | nil => exact Nat.zero_le room
    | cons m rest ih =>
      obtain ⟨hm, hrest⟩ := List.forall_mem_cons.1 h
      obtain ⟨name, -, hread⟩ := bind_eq_ok.1 hread
      obtain ⟨a, ha, hread⟩ := bind_eq_ok.1 hread
      obtain ⟨more, hmore, -⟩ := bind_eq_ok.1 hread
      exact max_le (hm room a ha) (ih hrest more hmore)
  intro room m hread
  refine depth_le_of_enter hread fun hinside => ?_
  obtain ⟨as, has, -⟩ := map_eq_ok.1 hinside
  exact hmembers _ as has

/-- A record whose members are all fields that are fathomed. -/
theorem Fathoms.record {fields : List (RecordField α)} {ms : List (String × Json)}
    (known : ∀ m ∈ ms, m.1 ∈ fields.map (·.name))
    (h : ∀ m ∈ ms, ∀ field ∈ fields, field.name = m.1 → ∀ a, Fathoms (field.fill · a) m.2)
    (form : Form) (name : String) (blank : α) :
    Fathoms (readRecord form name fields blank) (.object ms) := by
  have hmembers (room : Nat) (seen : List String) (a : α) (out : List String × α)
      (hread : readFields fields none seen a (draftMembersWithin room ms) = .ok out) :
      depthMembers ms ≤ room := by
    induction ms generalizing seen a with
    | nil => exact Nat.zero_le room
    | cons m rest ih =>
      obtain ⟨hknown, hrest⟩ := List.forall_mem_cons.1 known
      obtain ⟨hm, hmore⟩ := List.forall_mem_cons.1 h
      rw [draftMembersWithin, readFields, readName_text, ok_bind] at hread
      split at hread
      · next hnone =>
        -- a member that no field knows would be passed over, at whatever depth; there is none
        obtain ⟨field, hfield, hname⟩ := List.mem_map.1 hknown
        exact absurd hname (by simpa using List.find?_eq_none.1 hnone field hfield)
      · next field hfind =>
        split at hread
        · cases hread
        · obtain ⟨b, hfill, hread⟩ := bind_eq_ok.1 hread
          have hname : field.name = m.1 := by simpa using List.find?_some hfind
          -- the field that reads the member goes through all of it
          have hdepth := hm field (List.mem_of_find?_eq_some hfind) hname a room b hfill
          exact max_le hdepth (ih hrest hmore _ b hread)
  intro room a hread
  refine depth_le_of_enter hread fun hinside => ?_
  obtain ⟨out, hout, -⟩ := bind_eq_ok.1 hinside
  exact hmembers _ _ _ out hout

end Json

namespace AttributeValue

open Json

/-- An object with one member is fathomed if the payload of its tag is. -/
theorem fathoms_tagged {tag : String} {payload : Json} (h : Fathoms (readPayload tag) payload) :
    Fathoms read (.object [(tag, payload)]) := by
  intro room w hread
  refine depth_le_of_enter hread fun hinside => ?_
  have hpayload := h _ w ((readTagged_member tag _).symm.trans hinside)
  exact max_le hpayload (Nat.zero_le _)

/-- Lists of strings are fathomed. -/
theorem fathoms_strings (texts : List String) : Fathoms (readList readString) (.strings texts) :=
  .list fun j hj => by
    obtain ⟨_, -, rfl⟩ := List.mem_map.1 hj
    exact fathoms_of_depth rfl

mutual

/-- **An attribute value** is read through and through. -/
theorem fathoms_toJson : ∀ w : AttributeValue, Fathoms read w.toJson
  | .s _ => fathoms_tagged (fathoms_of_depth rfl)
  | .n _ => fathoms_tagged (fathoms_of_depth rfl)
  | .b _ => fathoms_tagged (fathoms_of_depth rfl)
  | .bool _ => fathoms_tagged (fathoms_of_depth rfl)
  | .null _ => fathoms_tagged (fathoms_of_depth rfl)
  | .ss texts => fathoms_tagged fun room _ h => by
    obtain ⟨_, h, -⟩ := map_eq_ok.1 h
    exact fathoms_strings texts room _ h
  | .ns literals => fathoms_tagged fun room _ h => by
    obtain ⟨_, h, -⟩ := map_eq_ok.1 h
    exact fathoms_strings literals room _ h
  | .bs elements => fathoms_tagged fun room _ h => by
    obtain ⟨_, h, -⟩ := map_eq_ok.1 h
    obtain ⟨_, h, -⟩ := bind_eq_ok.1 h
    exact fathoms_strings (elements.map Base64.encode) room _ h
  | .l elements => fathoms_tagged fun room _ h => by
    refine depth_le_of_enter h fun hinside => ?_
    obtain ⟨_, hread, -⟩ := map_eq_ok.1 hinside
    exact depth_le_listJson elements hread
  | .m ⟨entries⟩ => fathoms_tagged fun room _ h => by
    refine depth_le_of_enter h fun hinside => ?_
    obtain ⟨_, hread, -⟩ := map_eq_ok.1 hinside
    exact depth_le_entriesJson entries hread

/-- Elements that are read do not lie too deep. -/
theorem depth_le_listJson {room : Nat} {out : List AttributeValue} :
    ∀ ws : List AttributeValue,
    readElements none (draftElementsWithin room (listJson ws)) = .ok out →
    depthElements (listJson ws) ≤ room
  | [], _ => Nat.zero_le room
  | w :: rest, h => by
    rw [listJson, draftElementsWithin, readElements] at h
    obtain ⟨first, hfirst, h⟩ := bind_eq_ok.1 h
    obtain ⟨more, hmore, -⟩ := bind_eq_ok.1 h
    exact max_le (fathoms_toJson w room first hfirst) (depth_le_listJson rest hmore)

/-- Entries that are read do not lie too deep. -/
theorem depth_le_entriesJson {room : Nat} {out : List (String × AttributeValue)} :
    ∀ es : List (String × AttributeValue),
    readEntries none (draftMembersWithin room (entriesJson es)) = .ok out →
    depthMembers (entriesJson es) ≤ room
  | [], _ => Nat.zero_le room
  | (_, w) :: rest, h => by
    rw [entriesJson, draftMembersWithin, readEntries] at h
    obtain ⟨name, -, h⟩ := bind_eq_ok.1 h
    obtain ⟨first, hfirst, h⟩ := bind_eq_ok.1 h
    obtain ⟨more, hmore, -⟩ := bind_eq_ok.1 h
    exact max_le (fathoms_toJson w room first hfirst) (depth_le_entriesJson rest hmore)

end

end AttributeValue

/-- Attribute maps are fathomed like the payload of a map. -/
theorem AttributeMap.fathoms_toJson (m : AttributeMap) : Json.Fathoms AttributeMap.read m.toJson :=
  .map fun e he => by
    rw [AttributeValue.entriesJson_eq] at he
    obtain ⟨e, -, rfl⟩ := List.mem_map.1 he
    exact AttributeValue.fathoms_toJson e.2

end TableQuery
