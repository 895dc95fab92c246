import Mathlib.Data.List.Induction
import Mathlib.Data.List.Nodup
import TableQuery.Placeholders
import TableQuery.Proofs.OrderedMap

/-!
# Numbered declarations

A supply of keys and the map of what is declared under them are two pieces of state that have to
agree: the map holds the first keys of the supply, one for each different thing, in the order in
which the things were first used. As long as the numbers do not run over 32 bits, declaring one
more thing keeps this (`declare_uses`), and what is found under a key is the thing that it was
handed out for (`get?_numbered`).
-/

namespace TableQuery

namespace KeySupply

variable {α : Type}

/-! ## The text of a key -/

/-- The key with a number, which need not be one of 32 bits. -/
def nth (sigil : Char) (n : Nat) : String := String.ofList (sigil :: Nat.toDigits 10 n)

theorem key_eq_nth (sigil : Char) (n : UInt32) : key sigil n = nth sigil n.toNat := rfl

@[simp] theorem toList_nth (sigil : Char) (n : Nat) :
    (nth sigil n).toList = sigil :: Nat.toDigits 10 n := by
  simp [nth]

/-- The number of a key can be read back from its digits. -/
theorem nth_inj {sigil : Char} {m n : Nat} (h : nth sigil m = nth sigil n) : m = n := by
  have hdigits : Nat.toDigits 10 m = Nat.toDigits 10 n := by
    have := congrArg String.toList h
    simpa using this
  rw [← Nat.ofDigitChars_ten_toDigits (n := m), hdigits, Nat.ofDigitChars_ten_toDigits]

/-- The text is the key with some number. -/
def IsKey (sigil : Char) (text : String) : Prop := ∃ n, text = nth sigil n

/-- A key begins with its sigil. -/
theorem IsKey.head? {sigil : Char} {text : String} (h : IsKey sigil text) :
    text.toList.head? = some sigil := by
  obtain ⟨n, rfl⟩ := h
  rw [toList_nth]
  rfl

/-! ## Maps whose keys are numbered -/

/-- Entries under consecutive keys, from a number on. -/
def numberedFrom (sigil : Char) : Nat → List α → List (String × α)
  | _, [] => []
  | n, a :: rest => (nth sigil n, a) :: numberedFrom sigil (n + 1) rest

/-- The map of things under the first keys of a sigil. -/
def numbered (sigil : Char) (as : List α) : OrderedMap α := ⟨numberedFrom sigil 1 as⟩

/-- The numbers go on behind the first list. -/
theorem numberedFrom_append (sigil : Char) (n : Nat) (as bs : List α) :
    numberedFrom sigil n (as ++ bs)
      = numberedFrom sigil n as ++ numberedFrom sigil (n + as.length) bs := by
  induction as generalizing n with
  | nil => rfl
  | cons a rest ih =>
    simp only [List.cons_append, numberedFrom, ih, List.length_cons]
    rw [show n + 1 + rest.length = n + (rest.length + 1) from by omega]

/-- The things are declared in their order. -/
theorem map_snd_numberedFrom (sigil : Char) (n : Nat) (as : List α) :
    (numberedFrom sigil n as).map (·.2) = as := by
  induction as generalizing n with
  | nil => rfl
  | cons a rest ih => simp [numberedFrom, ih]

/-- The keys are consecutive. -/
theorem map_fst_numberedFrom (sigil : Char) (n : Nat) (as : List α) :
    (numberedFrom sigil n as).map (·.1) = (List.range' n as.length).map (nth sigil) := by
  induction as generalizing n with
  | nil => rfl
  | cons a rest ih => simp [numberedFrom, ih, List.range'_succ]

@[simp] theorem values_numbered (sigil : Char) (as : List α) : (numbered sigil as).values = as :=
  map_snd_numberedFrom sigil 1 as

/-- The keys of the map are the first ones of the sigil. -/
theorem keys_numbered (sigil : Char) (as : List α) :
    (numbered sigil as).keys = (List.range' 1 as.length).map (nth sigil) :=
  map_fst_numberedFrom sigil 1 as

/-- The keys of a numbered map are different because their numbers are. -/
theorem distinct_numbered (sigil : Char) (as : List α) : (numbered sigil as).Distinct := by
  unfold OrderedMap.Distinct
  rw [keys_numbered]
  exact List.Nodup.map (fun m n h => nth_inj h) List.nodup_range'

/-- What stands under the key with a number is the thing at that place. -/
theorem lookup_numberedFrom (sigil : Char) (n i : Nat) (as : List α) :
    OrderedMap.lookup (nth sigil (n + i)) (numberedFrom sigil n as) = as[i]? := by
  induction as generalizing n i with
  | nil => simp [numberedFrom, OrderedMap.lookup]
  | cons a rest ih =>
    cases i with
    | zero => simp [numberedFrom, OrderedMap.lookup]
    | succ i =>
      -- the number of the first entry is smaller than the one that is looked for
      have hne : nth sigil n ≠ nth sigil (n + (i + 1)) := fun h => by
        have := nth_inj h
        omega
      rw [numberedFrom, OrderedMap.lookup, if_neg hne,
        show n + (i + 1) = n + 1 + i from by omega, ih]
      rfl

/-- What is found under a key is the thing at that place. -/
theorem get?_numbered (sigil : Char) (i : Nat) (as : List α) :
    (numbered sigil as).get? (nth sigil (i + 1)) = as[i]? := by
  rw [Nat.add_comm]
  exact lookup_numberedFrom sigil 1 i as

section

variable [BEq α] [LawfulBEq α]

/-- The key of a thing is found by its place. -/
theorem keyWhere?_numbered (sigil : Char) (as : List α) (a : α) :
    (numbered sigil as).keyWhere? (· == a)
      = if a ∈ as then some (nth sigil (as.idxOf a + 1)) else none := by
  -- the rest of the entries starts at a later number
  have general (n : Nat) : ((numberedFrom sigil n as).find? (fun e => e.2 == a)).map (·.1)
      = if a ∈ as then some (nth sigil (n + as.idxOf a)) else none := by
    induction as generalizing n with
    | nil => simp [numberedFrom]
    | cons b rest ih =>
      by_cases h : b = a
      · subst h
        simp [numberedFrom]
      · have hab : ¬a = b := fun e => h e.symm
        have hbeq : (b == a) = false := by simpa using h
        simp only [numberedFrom, List.find?_cons, hbeq, ih, List.mem_cons, hab, false_or,
          List.idxOf_cons]
        rw [show n + 1 + rest.idxOf a = n + (rest.idxOf a + 1) from by omega]
        rfl
  have := general 1
  rwa [Nat.add_comm] at this

end

/-! ## Declaring one more thing -/

/-- The supply that has handed out a number of keys. -/
def after (sigil : Char) (n : Nat) : KeySupply := { sigil, next := UInt32.ofNat (n + 1) }

/-- The number of things that can be declared before the numbers of the keys run over. -/
def capacity : Nat := UInt32.size - 2

/-- A supply hands out the next key, as long as the numbers have not run over. -/
theorem take_after {n : Nat} (h : n < capacity) (sigil : Char) :
    (after sigil n).take = (nth sigil (n + 1), after sigil (n + 1)) := by
  -- neither the number that is taken nor the next one runs over
  have hlt : n + 1 < 2 ^ 32 := by
    have hsize : UInt32.size = 2 ^ 32 := rfl
    unfold capacity at h
    omega
  have hnat : (UInt32.ofNat (n + 1)).toNat = n + 1 := UInt32.toNat_ofNat_of_lt' hlt
  have hnext : UInt32.ofNat (n + 1) + 1 = UInt32.ofNat (n + 1 + 1) := by
    rw [UInt32.ofNat_add (n + 1) 1]
    rfl
  simp only [take, after, key_eq_nth, hnat, hnext]

/-- The next number is that of none of the keys before, so nothing is overwritten. -/
theorem insert_numbered (sigil : Char) (as : List α) (a : α) :
    (numbered sigil as).insert (nth sigil (as.length + 1)) a = numbered sigil (as ++ [a]) := by
  have hnew : nth sigil (as.length + 1) ∉ (numberedFrom sigil 1 as).map (·.1) := by
    rw [map_fst_numberedFrom]
    intro h
    obtain ⟨n, hn, heq⟩ := List.mem_map.1 h
    -- the keys so far end with the number of entries
    have := nth_inj heq
    rw [List.mem_range'_1] at hn
    omega
  simp only [numbered, OrderedMap.insert, OrderedMap.write_of_not_mem hnew, numberedFrom_append, numberedFrom]
  rw [Nat.add_comm]

/-- Declaring adds no key but one of the supply. -/
theorem declare_isKey [BEq α] {s : KeySupply} {m : OrderedMap α} (h : ∀ key ∈ m.keys, IsKey s.sigil key)
    (a : α) :
    (∀ key ∈ (s.declare m a).2.1.keys, IsKey s.sigil key)
      ∧ (s.declare m a).2.2.sigil = s.sigil := by
  unfold declare
  split
  · exact ⟨h, rfl⟩
  · refine ⟨fun key hkey => ?_, rfl⟩
    rw [OrderedMap.keys_insert] at hkey
    -- if the numbers have run over, the new key may be one of the old ones
    split at hkey
    · exact h key hkey
    · rcases List.mem_append.1 hkey with hold | hnew
      · exact h key hold
      · exact ⟨s.next.toNat, List.mem_singleton.1 hnew⟩

section

variable [BEq α] [LawfulBEq α]

/-- Something that was there adds nothing to the different things. -/
theorem eraseDups_concat_of_mem {hs : List α} {a : α} (h : a ∈ hs) :
    (hs ++ [a]).eraseDups = hs.eraseDups := by
  rw [List.eraseDups_append]
  simp [List.removeAll, h]

/-- Something new comes last among the different things. -/
theorem eraseDups_concat_of_not_mem {hs : List α} {a : α} (h : a ∉ hs) :
    (hs ++ [a]).eraseDups = hs.eraseDups ++ [a] := by
  rw [List.eraseDups_append]
  simp [List.removeAll, h, List.eraseDups_cons]

/-- **Declaring keeps the numbering.** After a history of uses, the map holds the different things
in the order of their first use, and one use more gives the key of its place. -/
theorem declare_uses (sigil : Char) (hs : List α) (a : α)
    (room : (hs ++ [a]).eraseDups.length ≤ capacity) :
    (after sigil hs.eraseDups.length).declare (numbered sigil hs.eraseDups) a
      = (nth sigil ((hs ++ [a]).eraseDups.idxOf a + 1), numbered sigil (hs ++ [a]).eraseDups,
          after sigil (hs ++ [a]).eraseDups.length) := by
  unfold declare
  by_cases h : a ∈ hs
  · -- met before: the map and the supply stay as they are
    have hmem : a ∈ hs.eraseDups := List.mem_eraseDups.2 h
    simp only [keyWhere?_numbered, hmem, if_true, eraseDups_concat_of_mem h]
  · -- met for the first time: the next key is taken
    have hnot : a ∉ hs.eraseDups := fun hm => h (List.mem_eraseDups.1 hm)
    rw [eraseDups_concat_of_not_mem h, List.length_append, List.length_singleton] at room
    simp only [keyWhere?_numbered, hnot, if_false, take_after room, insert_numbered,
      eraseDups_concat_of_not_mem h, List.length_append, List.length_singleton]
    rw [List.idxOf_append_of_notMem hnot]
    simp

/-- The different things are different. -/
theorem nodup_eraseDups (hs : List α) : hs.eraseDups.Nodup := by
  induction hs using List.reverseRecOn with
  | nil => simp
  | append_singleton hs a ih =>
    by_cases h : a ∈ hs
    · rwa [eraseDups_concat_of_mem h]
    · rw [eraseDups_concat_of_not_mem h, ← List.concat_eq_append]
      exact ih.concat fun hm => h (List.mem_eraseDups.1 hm)

/-- The place of a first use is not changed by what is used later. -/
theorem idxOf_eraseDups_append {hs : List α} {a : α} (h : a ∈ hs) (later : List α) :
    (hs ++ later).eraseDups.idxOf a = hs.eraseDups.idxOf a := by
  rw [List.eraseDups_append, List.idxOf_append_of_mem (List.mem_eraseDups.2 h)]

/-- A thing stands at the place of its first use. -/
theorem getElem?_idxOf_eraseDups {hs : List α} {a : α} (h : a ∈ hs) :
    hs.eraseDups[hs.eraseDups.idxOf a]? = some a :=
  List.getElem?_idxOf (List.mem_eraseDups.2 h)

/-- The declared keys are those of the places of what was used, and no others. -/
theorem mem_keys_numbered_iff {sigil : Char} {hs : List α} {key : String} :
    key ∈ (numbered sigil hs.eraseDups).keys
      ↔ ∃ a ∈ hs, key = nth sigil (hs.eraseDups.idxOf a + 1) := by
  rw [keys_numbered, List.mem_map]
  constructor
  · rintro ⟨n, hn, rfl⟩
    rw [List.mem_range'_1] at hn
    have hlt : n - 1 < hs.eraseDups.length := by omega
    refine ⟨hs.eraseDups[n - 1], List.mem_eraseDups.1 (List.getElem_mem hlt), ?_⟩
    rw [(nodup_eraseDups hs).idxOf_getElem, show n - 1 + 1 = n from by omega]
  · rintro ⟨a, ha, rfl⟩
    have hlt := List.idxOf_lt_length_iff.2 (List.mem_eraseDups.2 ha)
    exact ⟨_, List.mem_range'_1.2 (by omega), rfl⟩

end

end KeySupply

end TableQuery
