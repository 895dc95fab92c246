import TableQuery.Proofs.Body
import TableQuery.Proofs.ByteOrder
import TableQuery.Proofs.JsonForm

/-!
# Generic values

The generic value of a document has the members of every object in the order of their names
(`Sorted`), and a document in which they are in this order is its own generic value.

* **`sorted_canonical`**, **`canonical_of_sorted`** — these two facts, by induction on the document.
* **`sortMembers_eq`** — members with different names are put into the one order that there is.
* **`get?_canonical_of_agree`** — what is found under a name is the generic value of what was there.
-/

namespace TableQuery.Json

/-! ## Sorting members -/

/-- The members are in the strict order of their names. -/
abbrev InOrder (ms : List (String × Json)) : Prop := ms.Pairwise fun a b => a.1 < b.1

theorem InOrder.nodup {ms : List (String × Json)} (h : InOrder ms) : (ms.map (·.1)).Nodup :=
  List.pairwise_map.2 (h.imp fun hlt => hlt.ne)

/-- What is in an object after a member was put in is that member, or was there before. -/
theorem mem_insertMember {name : String} {value : Json} {ms : List (String × Json)}
    {m : String × Json} (h : m ∈ insertMember name value ms) : m = (name, value) ∨ m ∈ ms := by
  induction ms with
  | nil => exact .inl (List.mem_singleton.1 h)
  | cons first rest ih =>
    obtain ⟨k, v⟩ := first
    rw [insertMember] at h
    split at h
    · exact (List.mem_cons.1 h).imp_right (List.mem_cons_of_mem _)
    · split at h
      · exact List.mem_cons.1 h
      · rcases List.mem_cons.1 h with rfl | hrest
        · exact .inr List.mem_cons_self
        · exact (ih hrest).imp_right (List.mem_cons_of_mem _)

/-- A member is put in where the order wants it; under a name that is there, it takes the place of
the member that had it. -/
theorem InOrder.insertMember {ms : List (String × Json)} (h : InOrder ms) (name : String)
    (value : Json) : InOrder (insertMember name value ms) := by
  induction ms with
  | nil => exact List.pairwise_singleton _ _
  | cons first rest ih =>
    obtain ⟨k, v⟩ := first
    obtain ⟨hfirst, hrest⟩ := List.pairwise_cons.1 h
    rw [Json.insertMember]
    split
    · -- the name is there: its member is replaced
      next hk =>
      subst hk
      exact List.pairwise_cons.2 ⟨hfirst, hrest⟩
    · split
      · next hlt =>
        -- a smaller name comes before all that follow the first
        refine List.pairwise_cons.2 ⟨fun m hm => ?_, h⟩
        rcases List.mem_cons.1 hm with rfl | hm
        · exact hlt
        · exact hlt.trans (hfirst m hm)
      · next hne hnlt =>
        refine List.pairwise_cons.2 ⟨fun m hm => ?_, ih hrest⟩
        rcases mem_insertMember hm with rfl | hm
        · exact lt_of_le_of_ne (not_lt.1 hnlt) hne
        · exact hfirst m hm

/-- A new name adds one member and moves none of the others out. -/
theorem insertMember_perm {name : String} {ms : List (String × Json)} (h : name ∉ ms.map (·.1))
    (value : Json) : (insertMember name value ms).Perm ((name, value) :: ms) := by
  induction ms with
  | nil => exact .refl _
  | cons first rest ih =>
    obtain ⟨k, v⟩ := first
    rw [List.map_cons, List.mem_cons, not_or] at h
    rw [insertMember, if_neg (Ne.symm h.1)]
    split
    · exact .refl _
    · exact ((ih h.2).cons (k, v)).trans (.swap _ _ _)

/-- Whatever the members were, they are in strict order after sorting. -/
theorem sortMembers_inOrder (ms : List (String × Json)) : InOrder (sortMembers ms) := by
  unfold sortMembers
  -- members are put into an object that is in order already, which the first one, being empty, is
  have general (sorted : List (String × Json)) (h : InOrder sorted) :
      InOrder (ms.foldl (fun sorted m => insertMember m.1 m.2 sorted) sorted) := by
    induction ms generalizing sorted with
    | nil => exact h
    | cons m rest ih => exact ih _ (h.insertMember m.1 m.2)
  exact general [] .nil

/-- Sorting adds no member. -/
theorem mem_sortMembers {ms : List (String × Json)} {m : String × Json} (h : m ∈ sortMembers ms) :
    m ∈ ms := by
  have general : ∀ sorted, m ∈ ms.foldl (fun sorted m => insertMember m.1 m.2 sorted) sorted →
      m ∈ sorted ∨ m ∈ ms := by
    clear h
    induction ms with
    | nil => exact fun _ h => .inl h
    | cons first rest ih =>
      intro sorted h
      rcases ih _ h with hsorted | hrest
      · rcases mem_insertMember hsorted with rfl | hold
        · exact .inr List.mem_cons_self
        · exact .inl hold
      · exact .inr (List.mem_cons_of_mem _ hrest)
  exact (general [] h).resolve_left List.not_mem_nil

/-- Where no name is repeated, no member is lost. -/
theorem sortMembers_perm {ms : List (String × Json)} (h : (ms.map (·.1)).Nodup) :
    (sortMembers ms).Perm ms := by
  have general : ∀ sorted : List (String × Json), ((sorted ++ ms).map (·.1)).Nodup →
      (ms.foldl (fun sorted m => insertMember m.1 m.2 sorted) sorted).Perm (sorted ++ ms) := by
    clear h
    induction ms with
    | nil =>
      intro sorted _
      rw [List.append_nil]
      exact .refl _
    | cons m rest ih =>
      intro sorted h
      have hnew : m.1 ∉ sorted.map (·.1) := by
        rw [List.map_append, List.nodup_append] at h
        exact fun hm => h.2.2 m.1 hm m.1 List.mem_cons_self rfl
      -- the first member is among the sorted ones from then on
      have hmove : (insertMember m.1 m.2 sorted ++ rest).Perm (sorted ++ m :: rest) :=
        ((insertMember_perm hnew m.2).append_right rest).trans List.perm_middle.symm
      exact (ih _ ((hmove.map _).nodup_iff.2 h)).trans hmove
  exact general [] h

/-- **Members with different names** are put into the one order that there is. -/
theorem sortMembers_eq {ms : List (String × Json)} (h : (ms.map (·.1)).Nodup) :
    sortMembers ms = sortEntries ms :=
  eq_sortEntries (sortMembers_perm h) (sortMembers_inOrder ms)

/-- Members that are in order stay as they are. -/
theorem sortMembers_of_inOrder {ms : List (String × Json)} (h : InOrder ms) : sortMembers ms = ms :=
  (sortMembers_eq h.nodup).trans (eq_sortEntries (.refl ms) h).symm

/-! ## Documents that are their own generic value -/

mutual

/-- In every object of the document, at any depth, the members are in the order of their names. -/
def Sorted : Json → Prop
  | .null => True
  | .bool _ => True
  | .number _ => True
  | .string _ => True
  | .array elements => SortedElements elements
  | .object members => InOrder members ∧ SortedMembers members

def SortedElements : List Json → Prop
  | [] => True
  | j :: rest => j.Sorted ∧ SortedElements rest

def SortedMembers : List (String × Json) → Prop
  | [] => True
  | (_, j) :: rest => j.Sorted ∧ SortedMembers rest

end

theorem sortedElements_iff {js : List Json} : SortedElements js ↔ ∀ j ∈ js, j.Sorted := by
  induction js with
  | nil => simp [SortedElements]
  | cons j rest ih => rw [SortedElements, ih, List.forall_mem_cons]

theorem sortedMembers_iff {ms : List (String × Json)} :
    SortedMembers ms ↔ ∀ m ∈ ms, m.2.Sorted := by
  induction ms with
  | nil => simp [SortedMembers]
  | cons m rest ih => rw [SortedMembers, ih, List.forall_mem_cons]

mutual

/-- **A generic value** is sorted at every depth. -/
theorem sorted_canonical : ∀ j : Json, j.canonical.Sorted
  | .null => trivial
  | .bool _ => trivial
  | .number _ => trivial
  | .string _ => trivial
  | .array elements => sortedElements_canonical elements
  | .object members => by
    refine ⟨sortMembers_inOrder _, sortedMembers_iff.2 fun m hm => ?_⟩
    exact sortedMembers_iff.1 (sortedMembers_canonical members) m (mem_sortMembers hm)

theorem sortedElements_canonical : ∀ js : List Json, SortedElements (canonicalElements js)
  | [] => trivial
  | j :: rest => ⟨sorted_canonical j, sortedElements_canonical rest⟩

/-- The generic values of members are sorted; the members themselves are put in order after that. -/
theorem sortedMembers_canonical : ∀ ms : List (String × Json), SortedMembers (canonicalMembers ms)
  | [] => trivial
  | (_, j) :: rest => ⟨sorted_canonical j, sortedMembers_canonical rest⟩

end

mutual

/-- **A sorted document** is its own generic value. -/
theorem canonical_of_sorted : ∀ j : Json, j.Sorted → j.canonical = j
  | .null, _ => rfl
  | .bool _, _ => rfl
  | .number _, _ => rfl
  | .string _, _ => rfl
  | .array elements, h => by rw [canonical, canonicalElements_of_sorted elements h]
  | .object members, h => by
    rw [canonical, canonicalMembers_of_sorted members h.2, sortMembers_of_inOrder h.1]

/-- Sorted elements are their own generic values. -/
theorem canonicalElements_of_sorted : ∀ js : List Json, SortedElements js →
    canonicalElements js = js
  | [], _ => rfl
  | j :: rest, h => by
    rw [canonicalElements, canonical_of_sorted j h.1, canonicalElements_of_sorted rest h.2]

/-- Members with sorted values are their own generic values, whatever their order. -/
theorem canonicalMembers_of_sorted : ∀ ms : List (String × Json), SortedMembers ms →
    canonicalMembers ms = ms
  | [], _ => rfl
  | (_, j) :: rest, h => by
    rw [canonicalMembers, canonical_of_sorted j h.1, canonicalMembers_of_sorted rest h.2]

end

mutual

/-- Sorted names are different. -/
theorem distinct_of_sorted : ∀ j : Json, j.Sorted → j.Distinct
  | .null, _ => trivial
  | .bool _, _ => trivial
  | .number _, _ => trivial
  | .string _, _ => trivial
  | .array elements, h => distinctElements_of_sorted elements h
  | .object members, h => ⟨h.1.nodup, distinctMembers_of_sorted members h.2⟩

theorem distinctElements_of_sorted : ∀ js : List Json, SortedElements js → DistinctElements js
  | [], _ => trivial
  | j :: rest, h => ⟨distinct_of_sorted j h.1, distinctElements_of_sorted rest h.2⟩

theorem distinctMembers_of_sorted : ∀ ms : List (String × Json), SortedMembers ms →
    DistinctMembers ms
  | [], _ => trivial
  | (_, j) :: rest, h => ⟨distinct_of_sorted j h.1, distinctMembers_of_sorted rest h.2⟩

end

/-! ## Members of generic values -/

/-- An object with one member is in order. -/
theorem canonical_member (name : String) (j : Json) :
    (object [(name, j)]).canonical = .object [(name, j.canonical)] := rfl

/-- What is found under a name is a member of that name. -/
theorem mem_of_lookup? {name : String} {ms : List (String × Json)} {j : Json}
    (h : lookup? name ms = some j) : (name, j) ∈ ms := by
  induction ms with
  | nil => cases h
  | cons m rest ih =>
    obtain ⟨k, v⟩ := m
    rw [lookup?] at h
    split at h
    · next hk =>
      cases h
      exact hk ▸ List.mem_cons_self
    · exact List.mem_cons_of_mem _ (ih h)

/-- A member is found under its name, if names are different. -/
theorem lookup?_of_mem {ms : List (String × Json)} {m : String × Json} (h : (ms.map (·.1)).Nodup)
    (hm : m ∈ ms) : lookup? m.1 ms = some m.2 := by
  induction ms with
  | nil => cases hm
  | cons first rest ih =>
    rw [List.map_cons, List.nodup_cons] at h
    rw [lookup?]
    rcases List.mem_cons.1 hm with rfl | hrest
    · rw [if_pos rfl]
    · -- the name of the first member does not come again
      have hne : first.1 ≠ m.1 := fun heq => h.1 (heq ▸ List.mem_map_of_mem hrest)
      rw [if_neg hne, ih h.2 hrest]

/-- A member of a sorted object is sorted itself. -/
theorem sorted_of_get? {i j : Json} {name : String} (h : i.Sorted) (hj : i.get? name = some j) :
    j.Sorted := by
  cases i with
  | object ms => exact sortedMembers_iff.1 h.2 (name, j) (mem_of_lookup? hj)
  | _ => cases hj

theorem canonicalMembers_eq (ms : List (String × Json)) :
    canonicalMembers ms = ms.map fun m => (m.1, m.2.canonical) := by
  induction ms with
  | nil => rfl
  | cons m rest ih => rw [canonicalMembers, ih]; rfl

theorem canonicalElements_eq (js : List Json) : canonicalElements js = js.map canonical := by
  induction js with
  | nil => rfl
  | cons j rest ih => rw [canonicalElements, ih]; rfl

/-- Putting a member into its own place changes nothing. -/
theorem insertMember_of_lookup? {name : String} {ms : List (String × Json)} {j : Json}
    (order : InOrder ms) (h : lookup? name ms = some j) : insertMember name j ms = ms := by
  induction ms with
  | nil => cases h
  | cons m rest ih =>
    obtain ⟨k, v⟩ := m
    obtain ⟨hfirst, hrest⟩ := List.pairwise_cons.1 order
    rw [lookup?] at h
    rw [insertMember]
    by_cases hk : k = name
    · rw [if_pos hk] at h
      cases h
      rw [if_pos hk, hk]
    · rw [if_neg hk] at h
      -- the member comes later, so its name is not smaller
      have hlt : k < name := hfirst _ (mem_of_lookup? h)
      rw [if_neg hk, if_neg hlt.asymm, ih hrest h]

/-- **What is found under a name** in a generic value is the generic value of what was there, if all
members of that name are alike. -/
theorem get?_canonical_of_agree {ms : List (String × Json)} {name : String} {j : Json}
    (agree : ∀ m ∈ ms, m.1 = name → m.2 = j) (h : name ∈ ms.map (·.1)) :
    (object ms).canonical.get? name = some j.canonical := by
  cases hget : (object ms).canonical.get? name with
  | none => exact absurd h (get?_canonical_eq_none.1 hget)
  | some i =>
    have hmem := mem_sortMembers (mem_of_lookup? hget)
    rw [canonicalMembers_eq] at hmem
    obtain ⟨m, hm, heq⟩ := List.mem_map.1 hmem
    obtain ⟨hname, hvalue⟩ := Prod.mk.injEq .. ▸ heq
    rw [← hvalue, agree m hm hname]

/-- What is found under a name in a generic value is the generic value of what was there. -/
theorem lookup?_sortMembers {ms : List (String × Json)} (names : (ms.map (·.1)).Nodup)
    (name : String) :
    lookup? name (sortMembers (canonicalMembers ms)) = (lookup? name ms).map canonical := by
  by_cases hname : name ∈ ms.map (·.1)
  · obtain ⟨m, hm, rfl⟩ := List.mem_map.1 hname
    have agree : ∀ m' ∈ ms, m'.1 = m.1 → m'.2 = m.2 := fun m' hm' heq => by
      rw [List.inj_on_of_nodup_map names hm' hm heq]
    rw [lookup?_of_mem names hm]
    exact get?_canonical_of_agree agree hname
  · have hnone : lookup? name ms = none := by
      rw [Option.eq_none_iff_forall_ne_some]
      exact fun j hj => hname (List.mem_map_of_mem (mem_of_lookup? hj))
    rw [hnone]
    exact get?_canonical_eq_none.2 hname

/-- Members in the order of their names are told by what is found under each name. -/
theorem InOrder.ext {ms ms' : List (String × Json)} (h : InOrder ms) (h' : InOrder ms')
    (heq : ∀ name, lookup? name ms = lookup? name ms') : ms = ms' := by
  have hmem (m : String × Json) : m ∈ ms ↔ m ∈ ms' :=
    ⟨fun hm => mem_of_lookup? ((heq m.1).symm.trans (lookup?_of_mem h.nodup hm)),
      fun hm => mem_of_lookup? ((heq m.1).trans (lookup?_of_mem h'.nodup hm))⟩
  have hperm : ms.Perm ms' :=
    (List.perm_ext_iff_of_nodup (h.nodup.of_map _) (h'.nodup.of_map _)).2 hmem
  exact (eq_sortEntries hperm h).trans (eq_sortEntries (.refl ms') h').symm

end TableQuery.Json
