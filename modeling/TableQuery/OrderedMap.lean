/-!
# Insertion-ordered maps

A finite map from names to values that remembers the order in which the names came in. Writing to
a name that is present keeps its place; a new name goes to the end; erasing a name closes the gap.
Items, keys, placeholder declarations and response tables are all such maps.
-/

namespace TableQuery

structure OrderedMap (α : Type) where
  entries : List (String × α)
  deriving DecidableEq

namespace OrderedMap

variable {α β ε : Type}

def empty : OrderedMap α := ⟨[]⟩

instance : EmptyCollection (OrderedMap α) := ⟨empty⟩

instance : Inhabited (OrderedMap α) := ⟨empty⟩

def size (m : OrderedMap α) : Nat := m.entries.length

def isEmpty (m : OrderedMap α) : Bool := m.entries.isEmpty

def keys (m : OrderedMap α) : List String := m.entries.map (·.1)

def values (m : OrderedMap α) : List α := m.entries.map (·.2)

/-- The names are pairwise different. Every operation below keeps this, starting from `empty`. -/
def Distinct (m : OrderedMap α) : Prop := m.keys.Nodup

/-! ## Looking up -/

def lookup (key : String) : List (String × α) → Option α
  | [] => none
  | (k, v) :: rest => if k = key then some v else lookup key rest

def get? (m : OrderedMap α) (key : String) : Option α := lookup key m.entries

def contains (m : OrderedMap α) (key : String) : Bool := m.entries.any (·.1 == key)

/-- The first name that holds a value satisfying `p`. -/
def keyWhere? (m : OrderedMap α) (p : α → Bool) : Option String :=
  (m.entries.find? (fun e => p e.2)).map (·.1)

/-! ## Writing -/

def write (key : String) (value : α) : List (String × α) → List (String × α)
  | [] => [(key, value)]
  | (k, v) :: rest => if k = key then (k, value) :: rest else (k, v) :: write key value rest

def insert (m : OrderedMap α) (key : String) (value : α) : OrderedMap α :=
  ⟨write key value m.entries⟩

/-- Inserts, and returns the value that was there before. -/
def exchange (m : OrderedMap α) (key : String) (value : α) : Option α × OrderedMap α :=
  (m.get? key, m.insert key value)

/-- Overwrites the value of a name that is present; there is nothing to overwrite otherwise. -/
def overwrite? (m : OrderedMap α) (key : String) (value : α) : Option (OrderedMap α) :=
  if m.contains key then some (m.insert key value) else none

def extend (m : OrderedMap α) (pairs : List (String × α)) : OrderedMap α :=
  pairs.foldl (fun acc e => acc.insert e.1 e.2) m

/-- A repeated name keeps its first place and takes its last value. -/
def ofList (pairs : List (String × α)) : OrderedMap α := empty.extend pairs

/-! ## Erasing -/

def without (key : String) : List (String × α) → List (String × α)
  | [] => []
  | (k, v) :: rest => if k = key then rest else (k, v) :: without key rest

def erase (m : OrderedMap α) (key : String) : OrderedMap α := ⟨without key m.entries⟩

/-- Erases, and returns the value that was there before. -/
def remove (m : OrderedMap α) (key : String) : Option α × OrderedMap α :=
  (m.get? key, m.erase key)

/-! ## Mapping -/

def mapValues (f : α → β) (m : OrderedMap α) : OrderedMap β :=
  ⟨m.entries.map fun e => (e.1, f e.2)⟩

/-- Maps the values of a list of entries in order, up to the first failure. -/
def traverseEntries (f : α → Except ε β) : List (String × α) → Except ε (List (String × β))
  | [] => .ok []
  | (k, v) :: rest => do
    let w ← f v
    let ws ← traverseEntries f rest
    return (k, w) :: ws

def traverse (f : α → Except ε β) (m : OrderedMap α) : Except ε (OrderedMap β) :=
  (traverseEntries f m.entries).map OrderedMap.mk

/-! ## Laws

What each operation does to what is looked up, and to the names in their order.
-/

theorem lookup_write_self (key : String) (value : α) (es : List (String × α)) :
    lookup key (write key value es) = some value := by
  induction es with
  | nil => simp [write, lookup]
  | cons e rest ih =>
    obtain ⟨k, v⟩ := e
    by_cases h : k = key
    · simp [write, lookup, h]
    · simp [write, lookup, h, ih]

theorem lookup_write_of_ne {j key : String} (hne : j ≠ key) (value : α)
    (es : List (String × α)) : lookup j (write key value es) = lookup j es := by
  induction es with
  | nil => simp [write, lookup, Ne.symm hne]
  | cons e rest ih =>
    obtain ⟨k, v⟩ := e
    by_cases h : k = key
    · subst h
      simp [write, lookup, Ne.symm hne]
    · simp [write, lookup, h, ih]

theorem get?_insert_self (m : OrderedMap α) (key : String) (value : α) :
    (m.insert key value).get? key = some value :=
  lookup_write_self key value m.entries

theorem get?_insert_of_ne (m : OrderedMap α) {j key : String} (hne : j ≠ key) (value : α) :
    (m.insert key value).get? j = m.get? j :=
  lookup_write_of_ne hne value m.entries

/-- A new name goes to the end; a name that is present keeps its place. -/
theorem keys_insert (m : OrderedMap α) (key : String) (value : α) :
    (m.insert key value).keys = if key ∈ m.keys then m.keys else m.keys ++ [key] := by
  obtain ⟨es⟩ := m
  simp only [insert, keys]
  induction es with
  | nil => simp [write]
  | cons e rest ih =>
    obtain ⟨k, v⟩ := e
    by_cases h : k = key
    · simp [write, h]
    · have hne : ¬key = k := fun hk => h hk.symm
      by_cases hmem : key ∈ rest.map (·.1)
      · simp [write, h, hne, ih, hmem]
      · simp [write, h, hne, ih, hmem]

theorem keys_erase (m : OrderedMap α) (key : String) : (m.erase key).keys = m.keys.erase key := by
  obtain ⟨es⟩ := m
  simp only [erase, keys]
  induction es with
  | nil => rfl
  | cons e rest ih =>
    obtain ⟨k, v⟩ := e
    by_cases h : k = key
    · simp [without, h]
    · simp [without, h, ih]

theorem Distinct.insert {m : OrderedMap α} (hm : m.Distinct) (key : String) (value : α) :
    (m.insert key value).Distinct := by
  unfold Distinct
  rw [keys_insert]
  split
  · exact hm
  · rename_i hnew
    refine List.nodup_append.2 ⟨hm, by simp, ?_⟩
    intro a ha b hb
    rw [List.mem_singleton] at hb
    exact fun hab => hnew (hb ▸ hab ▸ ha)

theorem Distinct.erase {m : OrderedMap α} (hm : m.Distinct) (key : String) :
    (m.erase key).Distinct := by
  unfold Distinct
  rw [keys_erase]
  exact List.Nodup.erase key hm

theorem Distinct.extend {m : OrderedMap α} (hm : m.Distinct) (pairs : List (String × α)) :
    (m.extend pairs).Distinct := by
  unfold OrderedMap.extend
  induction pairs generalizing m with
  | nil => exact hm
  | cons e rest ih => exact ih (hm.insert e.1 e.2)

theorem distinct_empty : (empty : OrderedMap α).Distinct := List.nodup_nil

theorem distinct_ofList (pairs : List (String × α)) : (ofList pairs).Distinct :=
  distinct_empty.extend pairs

end OrderedMap

end TableQuery
