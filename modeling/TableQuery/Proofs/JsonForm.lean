import Mathlib.Data.Set.List
import TableQuery.AttributeValue
import TableQuery.Proofs.Base64
import TableQuery.Proofs.OrderedMap
import TableQuery.Proofs.TypedForm

/-!
# Attribute values and their JSON form

An attribute value is written as an object with one member, and nothing but such objects is read
(`IsTagged`). Names may be repeated in a document where its members are the entries of a map; the map
that is read has each of them once (`merged`). All other documents that are read are written back as
they were.

* **`read_eq_ok`** — what is read is an object with one member, whose payload is read by its tag.
* **`isTagged_of_read`** — by induction on the document, nothing but tagged documents is read.
* **`exists_toJson`** — every tagged document is written for some value, whose maps may have a name
  more than once.
* **`read_toJson`** — such a document is read as this value, merged.
* **`json_form_bijective`** — both directions, for documents and values without repeated names.
-/

namespace TableQuery

/-! ## Documents without repeated names -/

namespace Json

mutual

/-- In every object of the document, at any depth, the names of the members are different. -/
def Distinct : Json → Prop
  | .null => True
  | .bool _ => True
  | .number _ => True
  | .string _ => True
  | .array elements => DistinctElements elements
  | .object members => (members.map (·.1)).Nodup ∧ DistinctMembers members

def DistinctElements : List Json → Prop
  | [] => True
  | j :: rest => j.Distinct ∧ DistinctElements rest

def DistinctMembers : List (String × Json) → Prop
  | [] => True
  | (_, j) :: rest => j.Distinct ∧ DistinctMembers rest

end

theorem distinct_member {name : String} {j : Json} :
    (Json.object [(name, j)]).Distinct ↔ j.Distinct := by
  simp [Distinct, DistinctMembers]

/-- A list of strings has no objects in it, so it repeats no name. -/
theorem distinct_strings (texts : List String) : (Json.strings texts).Distinct := by
  rw [strings, Distinct]
  induction texts with
  | nil => trivial
  | cons text rest ih => exact ⟨trivial, ih⟩

/-! ## Parts of documents -/

/-- An element is smaller than its array. -/
theorem sizeOf_element {js : List Json} {j : Json} (h : j ∈ js) :
    sizeOf j < sizeOf (Json.array js) := by
  have hlt := List.sizeOf_lt_of_mem h
  simp only [Json.array.sizeOf_spec]
  omega

/-- The value of a member is smaller than its object. -/
theorem sizeOf_member {members : List (String × Json)} {member : String × Json}
    (h : member ∈ members) : sizeOf member.2 < sizeOf (Json.object members) := by
  have hlt := List.sizeOf_lt_of_mem h
  obtain ⟨name, j⟩ := member
  simp only [Json.object.sizeOf_spec, Prod.mk.sizeOf_spec] at hlt ⊢
  omega

/-! ## Reading scalars -/

variable {j : Json}

/-- A text is read from a string, and from nothing else. -/
theorem readString_eq_ok {text : String} : readString j.toDraft = .ok text ↔ j = .string text := by
  cases j <;> simp [toDraft, readString]

theorem readBool_eq_ok {flag : Bool} : readBool j.toDraft = .ok flag ↔ j = .bool flag := by
  cases j <;> simp [toDraft, readBool]

/-- A list of texts is read from an array of strings only, element by element. -/
theorem readStrings_eq_ok {texts : List String} :
    readList readString j.toDraft = .ok texts ↔ j = .strings texts := by
  -- the elements are read one after the other, so they match the texts in order
  have helements (js : List Json) : readElements readString none (draftElements js) = .ok texts
      ↔ js = texts.map .string := by
    induction js generalizing texts with
    | nil => cases texts <;> simp [draftElements, readElements, close]
    | cons j rest ih =>
      rw [draftElements, readElements]
      simp only [bind_eq_ok, readString_eq_ok, ih]
      cases texts with
      | nil => simp [pure, Except.pure]
      | cons text more => simp [pure, Except.pure]
  cases j with
  | array elements =>
    rw [strings, Json.array.injEq]
    exact helements elements
  | _ => simp [toDraft, readList, strings]

end Json

namespace AttributeValue

open Json

variable {j : Json}

/-- Bytes are read from the one string that they are written as. -/
theorem readBytes_eq_ok {bytes : List UInt8} :
    readBytes j.toDraft = .ok bytes ↔ j = .string (Base64.encode bytes) := by
  rw [readBytes]
  simp only [bind_eq_ok, readString_eq_ok]
  constructor
  · -- the text is only known to decode; that it is the canonical one is a fact about the decoder
    rintro ⟨text, rfl, h⟩
    split at h
    · next hdecode =>
      cases h
      rw [Base64.decode_eq_ok.1 hdecode]
    · cases h
  · rintro rfl
    refine ⟨_, rfl, ?_⟩
    rw [Base64.decode_eq_ok.2 rfl]
    rfl

/-- Texts are decoded together exactly if each of them is the encoding of its bytes. -/
theorem decodeAll_eq_ok {texts : List String} {all : List (List UInt8)} :
    decodeAll texts = .ok all ↔ texts = all.map Base64.encode := by
  induction texts generalizing all with
  | nil => cases all <;> simp [decodeAll]
  | cons text rest ih =>
    rw [decodeAll]
    simp only [bind_eq_ok, Base64.decode_eq_ok, ih]
    cases all <;> simp [pure, Except.pure]

/-- A set of bytes is read from the one list of strings that it is written as. -/
theorem readBytesList_eq_ok {all : List (List UInt8)} :
    readBytesList j.toDraft = .ok all ↔ j = .strings (all.map Base64.encode) := by
  rw [readBytesList]
  simp only [bind_eq_ok, readStrings_eq_ok]
  constructor
  · rintro ⟨texts, rfl, h⟩
    split at h
    · next hdecode =>
      cases h
      rw [decodeAll_eq_ok.1 hdecode]
    · cases h
  · rintro rfl
    refine ⟨_, rfl, ?_⟩
    rw [decodeAll_eq_ok.2 rfl]
    rfl

/-! ## Tagged documents -/

/-- An object with one member, whose name is a tag and whose value is what belongs to this tag. -/
inductive IsTagged : Json → Prop where
  | s (text : String) : IsTagged (.object [("S", .string text)])
  | n (text : String) : IsTagged (.object [("N", .string text)])
  | b {text : String} (h : Base64.Canonical text.toList) : IsTagged (.object [("B", .string text)])
  | ss (texts : List String) : IsTagged (.object [("SS", .array (texts.map .string))])
  | ns (texts : List String) : IsTagged (.object [("NS", .array (texts.map .string))])
  | bs {texts : List String} (h : ∀ text ∈ texts, Base64.Canonical text.toList) :
    IsTagged (.object [("BS", .array (texts.map .string))])
  | bool (flag : Bool) : IsTagged (.object [("BOOL", .bool flag)])
  | null (flag : Bool) : IsTagged (.object [("NULL", .bool flag)])
  | l {elements : List Json} (h : ∀ j ∈ elements, IsTagged j) :
    IsTagged (.object [("L", .array elements)])
  | m {members : List (String × Json)} (h : ∀ member ∈ members, IsTagged member.2) :
    IsTagged (.object [("M", .object members)])

/-- Of an object with one member, its payload is read by its tag. -/
theorem readTagged_member (tag : String) (d : Draft) :
    readTagged none [(.text tag, d)] = readPayload tag d := by
  show (readPayload tag d >>= fun w => close none w) = readPayload tag d
  cases readPayload tag d <;> rfl

/-- What is read is an object with one member, whose value is read by the tag that its name is. -/
theorem read_eq_ok {w : AttributeValue} :
    read j.toDraft = .ok w
      ↔ ∃ tag payload, j = .object [(tag, payload)] ∧ readPayload tag payload.toDraft = .ok w := by
  constructor
  · intro h
    cases j with
    | object members =>
      rw [toDraft, read] at h
      rcases members with _ | ⟨⟨tag, payload⟩, _ | ⟨second, rest⟩⟩
      · cases h
      · exact ⟨tag, payload, rfl, readTagged_member tag payload.toDraft ▸ h⟩
      · -- a second member is an error, whatever comes before it
        obtain ⟨name, -, hpayload⟩ := bind_eq_ok.1 h
        obtain ⟨first, -, hsecond⟩ := bind_eq_ok.1 hpayload
        obtain ⟨name', -, hcount⟩ := bind_eq_ok.1 hsecond
        cases hcount
    | _ => simp [toDraft, read] at h
  · rintro ⟨tag, payload, rfl, h⟩
    exact (readTagged_member tag payload.toDraft).trans h

/-- If the elements of a list are read, each of them is. -/
theorem readElements_inv {js : List Json} {ws : List AttributeValue}
    (h : readElements none (draftElements js) = .ok ws) : ∀ j ∈ js, ∃ w, read j.toDraft = .ok w := by
  induction js generalizing ws with
  | nil => exact List.forall_mem_nil _
  | cons j rest ih =>
    rw [draftElements, readElements] at h
    obtain ⟨w, hw, hmore⟩ := bind_eq_ok.1 h
    obtain ⟨more, hrest, -⟩ := bind_eq_ok.1 hmore
    exact List.forall_mem_cons.2 ⟨⟨w, hw⟩, ih hrest⟩

/-- If the entries of a map are read, the value of each is. -/
theorem readEntries_inv {members : List (String × Json)} {es : List (String × AttributeValue)}
    (h : readEntries none (draftMembers members) = .ok es) :
    ∀ member ∈ members, ∃ w, read member.2.toDraft = .ok w := by
  induction members generalizing es with
  | nil => exact List.forall_mem_nil _
  | cons member rest ih =>
    rw [draftMembers, readEntries] at h
    obtain ⟨name, -, hvalue⟩ := bind_eq_ok.1 h
    obtain ⟨w, hw, hmore⟩ := bind_eq_ok.1 hvalue
    obtain ⟨more, hrest, -⟩ := bind_eq_ok.1 hmore
    exact List.forall_mem_cons.2 ⟨⟨w, hw⟩, ih hrest⟩

/-- A payload that is read belongs to its tag, if the documents within it are tagged once they are
read. -/
theorem isTagged_of_payload {tag : String} {payload : Json} {w : AttributeValue}
    (inner : ∀ j w, sizeOf j < sizeOf payload → read j.toDraft = .ok w → IsTagged j)
    (h : readPayload tag payload.toDraft = .ok w) : IsTagged (.object [(tag, payload)]) := by
  -- the tags are tried in the order in which the reader tries them
  unfold readPayload at h
  by_cases hS : tag = "S"
  · rw [if_pos hS] at h
    obtain ⟨text, htext, -⟩ := map_eq_ok.1 h
    rw [hS, readString_eq_ok.1 htext]
    exact .s text
  rw [if_neg hS] at h
  by_cases hN : tag = "N"
  · rw [if_pos hN] at h
    obtain ⟨text, htext, -⟩ := map_eq_ok.1 h
    rw [hN, readString_eq_ok.1 htext]
    exact .n text
  rw [if_neg hN] at h
  by_cases hB : tag = "B"
  · rw [if_pos hB] at h
    obtain ⟨bytes, hbytes, -⟩ := map_eq_ok.1 h
    rw [hB, readBytes_eq_ok.1 hbytes]
    exact .b (Base64.canonical_iff.2 ⟨bytes, rfl⟩)
  rw [if_neg hB] at h
  by_cases hSS : tag = "SS"
  · rw [if_pos hSS] at h
    obtain ⟨texts, htexts, -⟩ := map_eq_ok.1 h
    rw [hSS, readStrings_eq_ok.1 htexts]
    exact .ss texts
  rw [if_neg hSS] at h
  by_cases hNS : tag = "NS"
  · rw [if_pos hNS] at h
    obtain ⟨texts, htexts, -⟩ := map_eq_ok.1 h
    rw [hNS, readStrings_eq_ok.1 htexts]
    exact .ns texts
  rw [if_neg hNS] at h
  by_cases hBS : tag = "BS"
  · rw [if_pos hBS] at h
    obtain ⟨all, hall, -⟩ := map_eq_ok.1 h
    rw [hBS, readBytesList_eq_ok.1 hall]
    refine .bs fun text htext => ?_
    obtain ⟨bytes, -, rfl⟩ := List.mem_map.1 htext
    exact Base64.canonical_iff.2 ⟨bytes, rfl⟩
  rw [if_neg hBS] at h
  by_cases hBOOL : tag = "BOOL"
  · rw [if_pos hBOOL] at h
    obtain ⟨flag, hflag, -⟩ := map_eq_ok.1 h
    rw [hBOOL, readBool_eq_ok.1 hflag]
    exact .bool flag
  rw [if_neg hBOOL] at h
  by_cases hNULL : tag = "NULL"
  · rw [if_pos hNULL] at h
    obtain ⟨flag, hflag, -⟩ := map_eq_ok.1 h
    rw [hNULL, readBool_eq_ok.1 hflag]
    exact .null flag
  rw [if_neg hNULL] at h
  -- only the payloads of lists and maps hold further values, for which `inner` is needed
  by_cases hL : tag = "L"
  · rw [if_pos hL] at h
    rw [hL]
    cases payload with
    | array elements =>
      obtain ⟨ws, hws, -⟩ := map_eq_ok.1 h
      refine .l fun j hj => ?_
      obtain ⟨w, hw⟩ := readElements_inv hws j hj
      exact inner j w (sizeOf_element hj) hw
    | _ => cases h
  rw [if_neg hL] at h
  by_cases hM : tag = "M"
  · rw [if_pos hM] at h
    rw [hM]
    cases payload with
    | object members =>
      obtain ⟨es, hes, -⟩ := map_eq_ok.1 h
      refine .m fun member hmember => ?_
      obtain ⟨w, hw⟩ := readEntries_inv hes member hmember
      exact inner member.2 w (sizeOf_member hmember) hw
    | _ => cases h
  -- no other tag is read
  rw [if_neg hM] at h
  cases h

/-- Nothing but tagged documents is read. -/
theorem isTagged_of_read {j : Json} {w : AttributeValue} (h : read j.toDraft = .ok w) :
    IsTagged j := by
  -- the only member has a smaller payload, to which the induction applies
  obtain ⟨tag, payload, hj, hpayload⟩ := read_eq_ok.1 h
  have hsmaller : sizeOf payload < sizeOf j := by
    rw [hj]
    exact sizeOf_member (List.mem_singleton_self (tag, payload))
  rw [hj]
  exact isTagged_of_payload (fun i v hsize hv => isTagged_of_read hv) hpayload
termination_by sizeOf j
decreasing_by omega

/-! ## Documents that are written -/

mutual

/-- The attribute value in which every map, at any depth, has each name once: in its first place, and
with its last value. -/
def merged : AttributeValue → AttributeValue
  | .s text => .s text
  | .n literal => .n literal
  | .b bytes => .b bytes
  | .ss texts => .ss texts
  | .ns literals => .ns literals
  | .bs elements => .bs elements
  | .bool flag => .bool flag
  | .null flag => .null flag
  | .l elements => .l (mergedElements elements)
  | .m ⟨entries⟩ => .m (OrderedMap.ofList (mergedEntries entries))

def mergedElements : List AttributeValue → List AttributeValue
  | [] => []
  | w :: rest => w.merged :: mergedElements rest

def mergedEntries : List (String × AttributeValue) → List (String × AttributeValue)
  | [] => []
  | (name, w) :: rest => (name, w.merged) :: mergedEntries rest

end

mutual

/-- Where no name is repeated, there is nothing to merge. -/
theorem merged_of_distinct : ∀ w : AttributeValue, w.Distinct → w.merged = w
  | .s _, _ => rfl
  | .n _, _ => rfl
  | .b _, _ => rfl
  | .ss _, _ => rfl
  | .ns _, _ => rfl
  | .bs _, _ => rfl
  | .bool _, _ => rfl
  | .null _, _ => rfl
  | .l elements, h => by rw [merged, mergedElements_of_distinct elements h]
  | .m ⟨entries⟩, h => by
    rw [merged, mergedEntries_of_distinct entries h.2, OrderedMap.ofList_of_nodup h.1]

/-- Elements without repeated names are not changed by merging. -/
theorem mergedElements_of_distinct : ∀ ws : List AttributeValue, DistinctElements ws →
    mergedElements ws = ws
  | [], _ => rfl
  | w :: rest, h => by
    rw [mergedElements, merged_of_distinct w h.1, mergedElements_of_distinct rest h.2]

/-- Entries without repeated names are not changed by merging. -/
theorem mergedEntries_of_distinct : ∀ es : List (String × AttributeValue), DistinctEntries es →
    mergedEntries es = es
  | [], _ => rfl
  | (_, w) :: rest, h => by
    rw [mergedEntries, merged_of_distinct w h.1, mergedEntries_of_distinct rest h.2]

end

mutual

/-- **What is written** is read, with the names of every map merged. -/
theorem read_toJson : ∀ w : AttributeValue, read w.toJson.toDraft = .ok w.merged
  | .s text => read_eq_ok.2 ⟨"S", _, rfl, map_eq_ok.2 ⟨text, rfl, rfl⟩⟩
  | .n literal => read_eq_ok.2 ⟨"N", _, rfl, map_eq_ok.2 ⟨literal, rfl, rfl⟩⟩
  | .b bytes => read_eq_ok.2 ⟨"B", _, rfl, map_eq_ok.2 ⟨bytes, readBytes_eq_ok.2 rfl, rfl⟩⟩
  | .ss texts => read_eq_ok.2 ⟨"SS", _, rfl, map_eq_ok.2 ⟨texts, readStrings_eq_ok.2 rfl, rfl⟩⟩
  | .ns literals =>
    read_eq_ok.2 ⟨"NS", _, rfl, map_eq_ok.2 ⟨literals, readStrings_eq_ok.2 rfl, rfl⟩⟩
  | .bs all => read_eq_ok.2 ⟨"BS", _, rfl, map_eq_ok.2 ⟨all, readBytesList_eq_ok.2 rfl, rfl⟩⟩
  | .bool flag => read_eq_ok.2 ⟨"BOOL", _, rfl, map_eq_ok.2 ⟨flag, rfl, rfl⟩⟩
  | .null flag => read_eq_ok.2 ⟨"NULL", _, rfl, map_eq_ok.2 ⟨flag, rfl, rfl⟩⟩
  | .l elements =>
    read_eq_ok.2 ⟨"L", _, rfl, map_eq_ok.2 ⟨_, readElements_listJson elements, rfl⟩⟩
  | .m ⟨entries⟩ =>
    read_eq_ok.2 ⟨"M", _, rfl, map_eq_ok.2 ⟨_, readEntries_entriesJson entries, rfl⟩⟩

/-- The elements of a list are read as they were written, each of them merged. -/
theorem readElements_listJson : ∀ ws : List AttributeValue,
    readElements none (draftElements (listJson ws)) = .ok (mergedElements ws)
  | [] => rfl
  | w :: rest => by
    rw [listJson, draftElements, readElements, read_toJson w, readElements_listJson rest]
    rfl

/-- The entries of a map are read as they were written, each of them merged; that their names may
repeat is seen where the map is made of them. -/
theorem readEntries_entriesJson : ∀ es : List (String × AttributeValue),
    readEntries none (draftMembers (entriesJson es)) = .ok (mergedEntries es)
  | [] => rfl
  | (_, w) :: rest => by
    rw [entriesJson, draftMembers, readEntries, read_toJson w, readEntries_entriesJson rest]
    rfl

end

/-- The last value of a repeated name is read. -/
example : ofJson? (.object [("M", .object [("a", .object [("N", .string "1")]),
    ("a", .object [("NULL", .bool true)])])]) = .ok (.m ⟨[("a", .null true)]⟩) := rfl

/-! ## Distinct names on both sides -/

/-- Writing keeps the names of a map, in their order. -/
theorem map_fst_entriesJson (es : List (String × AttributeValue)) :
    (entriesJson es).map (·.1) = es.map (·.1) := by
  induction es with
  | nil => rfl
  | cons e rest ih => simp [entriesJson, ih]

mutual

/-- What is written repeats a name exactly where the value does. -/
theorem distinct_toJson : ∀ w : AttributeValue, w.toJson.Distinct ↔ w.Distinct
  | .s _ => distinct_member
  | .n _ => distinct_member
  | .b _ => distinct_member
  | .ss texts => distinct_member.trans (iff_true_intro (distinct_strings texts))
  | .ns literals => distinct_member.trans (iff_true_intro (distinct_strings literals))
  | .bs all => distinct_member.trans (iff_true_intro (distinct_strings (all.map Base64.encode)))
  | .bool _ => distinct_member
  | .null _ => distinct_member
  | .l elements => distinct_member.trans (distinctElements_listJson elements)
  | .m ⟨entries⟩ => by
    -- the outer object has one member, so only the names of the map itself can repeat
    rw [toJson, distinct_member, Json.Distinct, map_fst_entriesJson, Distinct,
      distinctMembers_entriesJson entries]

/-- The elements of a list that is written repeat names exactly where the values do. -/
theorem distinctElements_listJson : ∀ ws : List AttributeValue,
    Json.DistinctElements (listJson ws) ↔ DistinctElements ws
  | [] => Iff.rfl
  | w :: rest => and_congr (distinct_toJson w) (distinctElements_listJson rest)

/-- The members of a map that is written repeat names, further down, exactly where the values do. -/
theorem distinctMembers_entriesJson : ∀ es : List (String × AttributeValue),
    Json.DistinctMembers (entriesJson es) ↔ DistinctEntries es
  | [] => Iff.rfl
  | (_, w) :: rest => and_congr (distinct_toJson w) (distinctMembers_entriesJson rest)

end

/-- Entries repeat no name further down if none of their values does. -/
theorem distinctEntries_iff {es : List (String × AttributeValue)} :
    DistinctEntries es ↔ ∀ w ∈ es.map (·.2), w.Distinct := by
  induction es with
  | nil => simp [DistinctEntries]
  | cons e rest ih => rw [DistinctEntries, ih, List.map_cons, List.forall_mem_cons]

mutual

/-- After merging, no map at any depth has a name twice. -/
theorem distinct_merged : ∀ w : AttributeValue, w.merged.Distinct
  | .s _ => trivial
  | .n _ => trivial
  | .b _ => trivial
  | .ss _ => trivial
  | .ns _ => trivial
  | .bs _ => trivial
  | .bool _ => trivial
  | .null _ => trivial
  | .l elements => distinctElements_merged elements
  | .m ⟨entries⟩ => by
    -- the values of the merged map are among those that were put into it
    refine ⟨OrderedMap.distinct_ofList (mergedEntries entries), distinctEntries_iff.2 fun w hw => ?_⟩
    exact distinctEntries_iff.1 (distinctEntries_merged entries) w (OrderedMap.mem_values_ofList hw)

theorem distinctElements_merged : ∀ ws : List AttributeValue, DistinctElements (mergedElements ws)
  | [] => trivial
  | w :: rest => ⟨distinct_merged w, distinctElements_merged rest⟩

theorem distinctEntries_merged : ∀ es : List (String × AttributeValue),
    DistinctEntries (mergedEntries es)
  | [] => trivial
  | (_, w) :: rest => ⟨distinct_merged w, distinctEntries_merged rest⟩

end

/-! ## Both directions -/

/-- If each element is written for some value, the list of them is written for the list of values.
-/
theorem exists_listJson {js : List Json} (h : ∀ j ∈ js, ∃ w : AttributeValue, w.toJson = j) :
    ∃ ws, listJson ws = js := by
  induction js with
  | nil => exact ⟨[], rfl⟩
  | cons j rest ih =>
    obtain ⟨⟨w, rfl⟩, hrest⟩ := List.forall_mem_cons.1 h
    obtain ⟨ws, rfl⟩ := ih hrest
    exact ⟨w :: ws, rfl⟩

/-- If the value of each member is written for some value, the members are written for entries with
the same names. -/
theorem exists_entriesJson {members : List (String × Json)}
    (h : ∀ member ∈ members, ∃ w : AttributeValue, w.toJson = member.2) :
    ∃ es, entriesJson es = members := by
  induction members with
  | nil => exact ⟨[], rfl⟩
  | cons member rest ih =>
    obtain ⟨⟨w, hw⟩, hrest⟩ := List.forall_mem_cons.1 h
    obtain ⟨es, rfl⟩ := ih hrest
    exact ⟨(member.1, w) :: es, by rw [entriesJson, hw]⟩

/-- Tagged documents are written, if maps may have a name more than once. -/
theorem exists_toJson {j : Json} (h : IsTagged j) : ∃ w : AttributeValue, w.toJson = j := by
  induction h with
  | s text => exact ⟨.s text, rfl⟩
  | n text => exact ⟨.n text, rfl⟩
  | b h =>
    obtain ⟨bytes, rfl⟩ := Base64.canonical_iff.1 h
    exact ⟨.b bytes, rfl⟩
  | ss texts => exact ⟨.ss texts, rfl⟩
  | ns texts => exact ⟨.ns texts, rfl⟩
  | @bs texts h =>
    -- each text is an encoding by itself, so together they are the encodings of a list
    have hrange : texts ∈ Set.range (List.map Base64.encode) := by
      rw [Set.range_list_map]
      intro text htext
      obtain ⟨bytes, hbytes⟩ := Base64.canonical_iff.1 (h text htext)
      exact ⟨bytes, hbytes.symm⟩
    obtain ⟨all, rfl⟩ := hrange
    exact ⟨.bs all, rfl⟩
  | bool flag => exact ⟨.bool flag, rfl⟩
  | null flag => exact ⟨.null flag, rfl⟩
  | l _ ih =>
    obtain ⟨ws, rfl⟩ := exists_listJson ih
    exact ⟨.l ws, rfl⟩
  | m _ ih =>
    obtain ⟨es, rfl⟩ := exists_entriesJson ih
    exact ⟨.m ⟨es⟩, rfl⟩

/-- A value without repeated names comes back from the document that it is written as. -/
theorem ofJson?_toJson {w : AttributeValue} (h : w.Distinct) : ofJson? w.toJson = .ok w := by
  rw [ofJson?, read_toJson, merged_of_distinct w h]

/-- What is read is a written value, merged. -/
theorem ofJson?_inv {j : Json} {w : AttributeValue} (h : ofJson? j = .ok w) :
    ∃ v : AttributeValue, v.toJson = j ∧ v.merged = w := by
  obtain ⟨v, hv⟩ := exists_toJson (isTagged_of_read h)
  have hread : ofJson? j = .ok v.merged := hv ▸ read_toJson v
  exact ⟨v, hv, Except.ok.inj (hread.symm.trans h)⟩

/-- **Exactness**: what is read from a document without repeated names is written as this document. -/
theorem toJson_of_ofJson? {j : Json} {w : AttributeValue} (hj : j.Distinct)
    (h : ofJson? j = .ok w) : w.toJson = j := by
  obtain ⟨v, rfl, rfl⟩ := ofJson?_inv h
  rw [merged_of_distinct v ((distinct_toJson v).1 hj)]

/-- What is read never repeats a name, whatever document it was read from. -/
theorem distinct_of_ofJson? {j : Json} {w : AttributeValue} (h : ofJson? j = .ok w) :
    w.Distinct := by
  obtain ⟨v, -, rfl⟩ := ofJson?_inv h
  exact distinct_merged v

/-- **Acceptance**: a document is read if and only if it is tagged. -/
theorem exists_ofJson?_iff {j : Json} : (∃ w, ofJson? j = .ok w) ↔ IsTagged j := by
  constructor
  · rintro ⟨w, h⟩
    exact isTagged_of_read h
  · intro h
    obtain ⟨v, rfl⟩ := exists_toJson h
    exact ⟨v.merged, read_toJson v⟩

end AttributeValue

/-- **Attribute values and their JSON form** determine each other. A value is read from the document
that it is written as, with its maps in their order. What is read has no repeated names; a document
that has none either is written for the value that is read from it, so no two of them have the same
value. A document is read if and only if it is tagged, at every depth. -/
theorem json_form_bijective :
    (∀ w : AttributeValue, w.Distinct →
        AttributeValue.ofJson? w.toJson = .ok w ∧ w.toJson.Distinct)
      ∧ (∀ (j : Json) (w : AttributeValue), AttributeValue.ofJson? j = .ok w →
          w.Distinct ∧ (j.Distinct → w.toJson = j))
      ∧ (∀ j : Json, (∃ w, AttributeValue.ofJson? j = .ok w) ↔ AttributeValue.IsTagged j)
      ∧ ∀ (i j : Json) (w : AttributeValue), i.Distinct → j.Distinct →
          AttributeValue.ofJson? i = .ok w → AttributeValue.ofJson? j = .ok w → i = j := by
  refine ⟨fun w h => ⟨w.ofJson?_toJson h, w.distinct_toJson.2 h⟩, fun j w h => ?_,
    fun j => AttributeValue.exists_ofJson?_iff, fun i j w hi hj hiw hjw => ?_⟩
  · exact ⟨AttributeValue.distinct_of_ofJson? h, fun hj => AttributeValue.toJson_of_ofJson? hj h⟩
  · calc i = w.toJson := (AttributeValue.toJson_of_ofJson? hi hiw).symm
      _ = j := AttributeValue.toJson_of_ofJson? hj hjw

/-- Bytes in a list in a map, and a map of which the names are not in the order of the alphabet. -/
def attachments : AttributeValue :=
  .m ⟨[("Views", .l [.n "7", .b [1, 2, 3, 4]]),
    ("Authors", .m ⟨[("one", .bs [[111, 110, 101], []]), ("none", .null false)]⟩)]⟩

def attachmentsJson : Json :=
  .object [("M", .object
    [("Views", .object [("L", .array
      [.object [("N", .string "7")], .object [("B", .string "AQIDBA==")]])]),
     ("Authors", .object [("M", .object
      [("one", .object [("BS", .array [.string "b25l", .string ""])]),
       ("none", .object [("NULL", .bool false)])])])])]

/-- Bytes and a set of bytes inside a list inside a map: this value and this document are written
and read as each other, and no other document is read as the same value. -/
theorem json_form_bijective_nested :
    AttributeValue.ofJson? attachments.toJson = .ok attachments
      ∧ AttributeValue.IsTagged attachmentsJson
      ∧ (∀ w, AttributeValue.ofJson? attachmentsJson = .ok w → w.toJson = attachmentsJson)
      ∧ ∀ j : Json, j.Distinct → AttributeValue.ofJson? j = .ok attachments → j = attachmentsJson := by
  obtain ⟨values, documents, tagged, same⟩ := json_form_bijective
  have hvalue : attachments.Distinct := by
    simp [attachments, AttributeValue.Distinct, AttributeValue.DistinctEntries,
      AttributeValue.DistinctElements]
  have hdocument : attachmentsJson.Distinct := by
    simp [attachmentsJson, Json.Distinct, Json.DistinctMembers, Json.DistinctElements]
  have hread : AttributeValue.ofJson? attachmentsJson = .ok attachments := rfl
  exact ⟨(values attachments hvalue).1, (tagged attachmentsJson).1 ⟨attachments, hread⟩,
    fun w h => (documents attachmentsJson w h).2 hdocument,
    fun j hj h => same j attachmentsJson attachments hj hdocument h hread⟩

end TableQuery
