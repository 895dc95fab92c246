import Mathlib.Data.Set.Card
import TableQuery.Proofs.Numbering
import TableQuery.Proofs.SortedForm

/-!
# Order of arrival

An ordered map is a list of entries, and no type keeps two entries of one name out of it. What it
stands for is a finite map that knows when each of its names came in (`Chronicle`): writing to a
name that is present does not change its moment, and a name that was removed comes in anew. A map is
followed here through everything that can be done to it (`History`), conversions to values of
another type included.

* **`Told.insert`**, **`Told.erase`**, **`Told.overwrite`**, **`Told.extend`**, **`Told.convert`** —
  one operation keeps a map and its chronicle together.
* **`traverse_eq_ok`**, **`traverse_eq_error`** — a conversion keeps names and order, or reports the
  first value that it fails for.
* **`readMap_eq_ok`** — a map that is read is built from the members of its object.
* **`told_by_history`** — hence a map tells its history, however long that is: its names are
  different, it holds what was written last, and it lists its names in the order of their arrival.
-/

namespace TableQuery

namespace OrderedMap

variable {α β ε : Type}

/-! ## Chronicles -/

/-- The value that pairs give to a name last. -/
def lastOf (pairs : List (String × α)) (name : String) : Option α :=
  (pairs.reverse.find? fun e => e.1 == name).map (·.2)

/-- The place at which pairs name a name first. -/
def firstOf (pairs : List (String × α)) (name : String) : Option Nat :=
  pairs.findIdx? fun e => e.1 == name

/-- A finite map that knows when its names came in. Moments are counted by the pairs that were
written. -/
@[ext]
structure Chronicle (α : Type) where
  /-- The moment that comes next. -/
  now : Nat
  /-- What was written under a name last, since it was last removed. -/
  written? : String → Option α
  /-- The moment at which a name that is present came in last. -/
  arrived? : String → Option Nat

namespace Chronicle

def ofList (pairs : List (String × α)) : Chronicle α where
  now := pairs.length
  written? := lastOf pairs
  arrived? := firstOf pairs

def insert (c : Chronicle α) (name : String) (value : α) : Chronicle α where
  now := c.now + 1
  written? key := if key = name then some value else c.written? key
  arrived? key := if key = name then (c.arrived? key).or (some c.now) else c.arrived? key

def erase (c : Chronicle α) (name : String) : Chronicle α where
  now := c.now
  written? key := if key = name then none else c.written? key
  arrived? key := if key = name then none else c.arrived? key

/-- Only a value that is there can be overwritten. -/
def overwrite (c : Chronicle α) (name : String) (value : α) : Chronicle α where
  now := c.now
  written? key := if key = name then (c.written? key).map fun _ => value else c.written? key
  arrived? := c.arrived?

def extend (c : Chronicle α) (pairs : List (String × α)) : Chronicle α where
  now := c.now + pairs.length
  written? key := (lastOf pairs key).or (c.written? key)
  arrived? key := (c.arrived? key).or ((firstOf pairs key).map (c.now + ·))

/-- All values become what `f` makes of them. -/
def convert (c : Chronicle α) (f : α → Except ε β) : Chronicle β where
  now := c.now
  written? key := (c.written? key).bind fun a => (f a).toOption
  arrived? := c.arrived?

end Chronicle

/-! ## Histories -/

/-- What was done to a map, from its making on. -/
inductive History : Type → Type 1 where
  | ofList {α : Type} (pairs : List (String × α)) : History α
  | insert {α : Type} (before : History α) (name : String) (value : α) : History α
  | remove {α : Type} (before : History α) (name : String) : History α
  | overwrite {α : Type} (before : History α) (name : String) (value : α) : History α
  | extend {α : Type} (before : History α) (pairs : List (String × α)) : History α
  | convert {α β ε : Type} (before : History α) (f : α → Except ε β) : History β

namespace History

/-- The map that a history leads to, unless one of its conversions failed. -/
def map? : {α : Type} → History α → Option (OrderedMap α)
  | _, .ofList pairs => some (OrderedMap.ofList pairs)
  | _, .insert before name value => before.map?.map fun m => (m.exchange name value).2
  | _, .remove before name => before.map?.map fun m => (m.remove name).2
  | _, .overwrite before name value => before.map?.map fun m => (m.overwrite? name value).getD m
  | _, .extend before pairs => before.map?.map fun m => m.extend pairs
  | _, .convert before f => before.map?.bind fun m => (m.traverse f).toOption

/-- What a history tells of the names and values. -/
def chronicle : {α : Type} → History α → Chronicle α
  | _, .ofList pairs => .ofList pairs
  | _, .insert before name value => before.chronicle.insert name value
  | _, .remove before name => before.chronicle.erase name
  | _, .overwrite before name value => before.chronicle.overwrite name value
  | _, .extend before pairs => before.chronicle.extend pairs
  | _, .convert before f => before.chronicle.convert f

/-- Every conversion was one of values that it does not fail for. -/
def Succeeds : {α : Type} → History α → Prop
  | _, .ofList _ => True
  | _, .insert before _ _ => before.Succeeds
  | _, .remove before _ => before.Succeeds
  | _, .overwrite before _ _ => before.Succeeds
  | _, .extend before _ => before.Succeeds
  | _, .convert before f =>
    before.Succeeds ∧ ∀ name a, before.chronicle.written? name = some a → ∃ b, f a = .ok b

end History

/-! ## Looking up -/

/-- A value is found under the names that are present. -/
theorem exists_get?_iff {m : OrderedMap α} {name : String} :
    (∃ a, m.get? name = some a) ↔ name ∈ m.keys := by
  obtain ⟨es⟩ := m
  simp only [get?, keys]
  induction es with
  | nil => simp [lookup]
  | cons e rest ih =>
    obtain ⟨k, v⟩ := e
    by_cases h : k = name
    · simp [lookup, h]
    · simp [lookup, h, Ne.symm h, ih]

/-- Nothing is found under the other names. -/
theorem get?_eq_none_iff {m : OrderedMap α} {name : String} :
    m.get? name = none ↔ name ∉ m.keys := by
  rw [← exists_get?_iff]
  cases m.get? name <;> simp

/-- What was removed is not found; this needs that the name was there only once. -/
theorem get?_erase_self {m : OrderedMap α} (h : m.Distinct) (name : String) :
    (m.erase name).get? name = none := by
  -- a second entry of the name would come to light here
  rw [get?_eq_none_iff, keys_erase]
  exact h.not_mem_erase

/-- Removing a name does not touch what is found under others. -/
theorem get?_erase_of_ne (m : OrderedMap α) {key name : String} (hne : key ≠ name) :
    (m.erase name).get? key = m.get? key := by
  obtain ⟨es⟩ := m
  simp only [erase, get?]
  induction es with
  | nil => rfl
  | cons e rest ih =>
    obtain ⟨k, v⟩ := e
    by_cases h : k = name
    · subst h
      simp [without, lookup, Ne.symm hne]
    · simp [without, lookup, h, ih]

/-! ## Maps that tell a chronicle -/

/-- One name came in before another. -/
def Chronicle.Before (c : Chronicle α) (a b : String) : Prop :=
  ∃ i j, c.arrived? a = some i ∧ c.arrived? b = some j ∧ i < j

/-- A map that holds what was written, under names in the order of their arrival. -/
structure Told (c : Chronicle α) (m : OrderedMap α) : Prop where
  distinct : m.Distinct
  get : ∀ name, m.get? name = c.written? name
  present : ∀ name, name ∈ m.keys ↔ ∃ i, c.arrived? name = some i
  order : m.keys.Pairwise c.Before
  past : ∀ name i, c.arrived? name = some i → i < c.now

namespace Told

variable {c : Chronicle α} {m : OrderedMap α}

/-- The order of names whose moments are the same is the same. -/
theorem order_of_agree (h : Told c m) {d : Chronicle β} {names : List String}
    (sub : names.Sublist m.keys) (agree : ∀ name ∈ names, d.arrived? name = c.arrived? name) :
    names.Pairwise d.Before := by
  refine (h.order.sublist sub).imp_of_mem fun ha hb hbefore => ?_
  unfold Chronicle.Before
  rw [agree _ ha, agree _ hb]
  exact hbefore

/-- A map and its chronicle are written to together. -/
theorem insert (h : Told c m) (name : String) (value : α) :
    Told (c.insert name value) (m.insert name value) where
  distinct := h.distinct.insert name value
  get key := by
    unfold Chronicle.insert
    by_cases hkey : key = name
    · rw [hkey, get?_insert_self]
      exact (if_pos rfl).symm
    · rw [get?_insert_of_ne m hkey, h.get]
      exact (if_neg hkey).symm
  present key := by
    rw [mem_keys_insert, h.present]
    by_cases hkey : key = name
    · cases hc : c.arrived? name <;> simp [Chronicle.insert, hkey, hc]
    · simp [Chronicle.insert, hkey]
  order := by
    rw [keys_insert]
    by_cases hmem : name ∈ m.keys
    · -- a name that is present keeps its moment
      rw [if_pos hmem]
      obtain ⟨i, hi⟩ := (h.present name).1 hmem
      refine h.order_of_agree (List.Sublist.refl _) fun key _ => ?_
      by_cases hkey : key = name <;> simp [Chronicle.insert, hkey, hi]
    · -- a new name comes in after all others
      rw [if_neg hmem, List.pairwise_append]
      have hnone : c.arrived? name = none := by
        cases hc : c.arrived? name with
        | none => rfl
        | some i => exact absurd ((h.present name).2 ⟨i, hc⟩) hmem
      refine ⟨h.order_of_agree (List.Sublist.refl _) fun key hkey => ?_, by simp, ?_⟩
      · have hne : key ≠ name := fun heq => hmem (heq ▸ hkey)
        simp [Chronicle.insert, hne]
      · intro a ha b hb
        obtain rfl := List.mem_singleton.1 hb
        obtain ⟨i, hi⟩ := (h.present a).1 ha
        have hne : a ≠ b := fun heq => hmem (heq ▸ ha)
        refine ⟨i, c.now, ?_, ?_, h.past a i hi⟩
        · simp [Chronicle.insert, hne, hi]
        · simp [Chronicle.insert, hnone]
  past key i hi := by
    show i < c.now + 1
    by_cases hkey : key = name
    · cases hc : c.arrived? name with
      | none =>
        have heq : c.now = i := by simpa [Chronicle.insert, hkey, hc] using hi
        omega
      | some j =>
        have heq : j = i := by simpa [Chronicle.insert, hkey, hc] using hi
        have hpast := h.past name j hc
        omega
    · have hold : c.arrived? key = some i := by simpa [Chronicle.insert, hkey] using hi
      have hpast := h.past key i hold
      omega

/-- A name is removed from a map and from its chronicle together. -/
theorem erase (h : Told c m) (name : String) : Told (c.erase name) (m.erase name) where
  distinct := h.distinct.erase name
  get key := by
    unfold Chronicle.erase
    by_cases hkey : key = name
    · rw [hkey, get?_erase_self h.distinct]
      exact (if_pos rfl).symm
    · rw [get?_erase_of_ne m hkey, h.get]
      exact (if_neg hkey).symm
  present key := by
    rw [keys_erase, h.distinct.mem_erase_iff, h.present]
    by_cases hkey : key = name <;> simp [Chronicle.erase, hkey]
  order := by
    rw [keys_erase]
    refine h.order_of_agree List.erase_sublist fun key hkey => ?_
    have hne : key ≠ name := (h.distinct.mem_erase_iff.1 hkey).1
    simp [Chronicle.erase, hne]
  past key i hi := by
    by_cases hkey : key = name
    · simp [Chronicle.erase, hkey] at hi
    · exact h.past key i (by simpa [Chronicle.erase, hkey] using hi)

/-- Overwriting is writing to a name that is present; otherwise nothing happens. -/
theorem overwrite (h : Told c m) (name : String) (value : α) :
    Told (c.overwrite name value) ((m.overwrite? name value).getD m) := by
  unfold overwrite?
  -- a name that is there keeps its place, and a name that is not there is not added
  by_cases hmem : name ∈ m.keys
  · rw [if_pos (contains_iff.2 hmem), Option.getD_some]
    obtain ⟨a, ha⟩ := exists_get?_iff.2 hmem
    rw [h.get] at ha
    refine ⟨h.distinct.insert name value, fun key => ?_, fun key => ?_, ?_, h.past⟩
    · by_cases hkey : key = name
      · rw [hkey, get?_insert_self]
        simp [Chronicle.overwrite, ha]
      · rw [get?_insert_of_ne m hkey, h.get]
        simp [Chronicle.overwrite, hkey]
    · rw [keys_insert, if_pos hmem]
      exact h.present key
    · rw [keys_insert, if_pos hmem]
      exact h.order
  · have hcontains : ¬m.contains name = true := fun hc => hmem (contains_iff.1 hc)
    have hnone : c.written? name = none := by
      rw [← h.get, get?_eq_none_iff]
      exact hmem
    rw [if_neg hcontains, Option.getD_none]
    refine ⟨h.distinct, fun key => ?_, h.present, h.order, h.past⟩
    rw [h.get]
    by_cases hkey : key = name <;> simp [Chronicle.overwrite, hkey, hnone]

end Told

/-! ## Many pairs -/

/-- A name has the first value only if no later pair gives it another. -/
theorem lastOf_cons (e : String × α) (rest : List (String × α)) (name : String) :
    lastOf (e :: rest) name = (lastOf rest name).or (if e.1 = name then some e.2 else none) := by
  unfold lastOf
  rw [List.reverse_cons, List.find?_append, List.find?_singleton, Option.map_or]
  by_cases h : e.1 = name <;> simp [h]

/-- A name is named first by the first pair, or by the first of the others. -/
theorem firstOf_cons (e : String × α) (rest : List (String × α)) (name : String) :
    firstOf (e :: rest) name = if e.1 = name then some 0 else (firstOf rest name).map (· + 1) := by
  unfold firstOf
  rw [List.findIdx?_cons]
  by_cases h : e.1 = name <;> simp [h]

/-- Writing nothing changes nothing, and takes no time. -/
theorem Chronicle.extend_nil (c : Chronicle α) : c.extend [] = c :=
  Chronicle.ext rfl rfl (funext fun _ => Option.or_none)

/-- Pairs are written one after the other. -/
theorem Chronicle.extend_cons (c : Chronicle α) (e : String × α) (rest : List (String × α)) :
    c.extend (e :: rest) = (c.insert e.1 e.2).extend rest := by
  refine Chronicle.ext ?_ (funext fun key => ?_) (funext fun key => ?_)
  · show c.now + (rest.length + 1) = c.now + 1 + rest.length
    omega
  · -- what comes later counts
    show (lastOf (e :: rest) key).or (c.written? key)
      = (lastOf rest key).or (if key = e.1 then some e.2 else c.written? key)
    rw [lastOf_cons, Option.or_assoc]
    by_cases hkey : key = e.1
    · simp [hkey]
    · simp [hkey, Ne.symm hkey]
  · -- what comes first counts, unless the name is present already
    show (c.arrived? key).or ((firstOf (e :: rest) key).map (c.now + ·))
      = (if key = e.1 then (c.arrived? key).or (some c.now) else c.arrived? key).or
          ((firstOf rest key).map (c.now + 1 + ·))
    rw [firstOf_cons]
    by_cases hkey : key = e.1
    · rw [if_pos hkey.symm, if_pos hkey, Option.or_assoc]
      rfl
    · rw [if_neg (Ne.symm hkey), if_neg hkey, Option.map_map]
      have hshift : (c.now + ·) ∘ (· + 1) = (c.now + 1 + ·) := by
        funext i
        show c.now + (i + 1) = c.now + 1 + i
        omega
      rw [hshift]

/-- A map and its chronicle are extended together, pair by pair. -/
theorem Told.extend {c : Chronicle α} {m : OrderedMap α} (h : Told c m)
    (pairs : List (String × α)) : Told (c.extend pairs) (m.extend pairs) := by
  induction pairs generalizing c m with
  | nil =>
    rw [Chronicle.extend_nil]
    exact h
  | cons e rest ih =>
    rw [Chronicle.extend_cons]
    exact ih (h.insert e.1 e.2)

/-- A map is built by extending the empty one. -/
theorem told_ofList (pairs : List (String × α)) : Told (.ofList pairs) (ofList pairs) := by
  have hempty : Told (.ofList []) (empty : OrderedMap α) :=
    ⟨distinct_empty, fun _ => rfl, fun _ => ⟨nofun, nofun⟩, .nil, nofun⟩
  have hextend : (Chronicle.ofList []).extend pairs = Chronicle.ofList pairs := by
    refine Chronicle.ext (Nat.zero_add _) (funext fun key => Option.or_none) (funext fun key => ?_)
    show ((firstOf pairs key).map (0 + ·)) = firstOf pairs key
    simp
  rw [← hextend]
  exact hempty.extend pairs

/-- The names of pairs, each at its first place. -/
theorem keys_ofList (pairs : List (String × α)) :
    (ofList pairs).keys = (pairs.map (·.1)).eraseDups := by
  induction pairs using List.reverseRecOn with
  | nil => rfl
  | append_singleton pairs e ih =>
    have hlast : ofList (pairs ++ [e]) = (ofList pairs).insert e.1 e.2 := by
      simp [ofList, extend]
    rw [hlast, keys_insert, ih, List.map_append, List.map_singleton]
    by_cases h : e.1 ∈ pairs.map (·.1)
    · rw [if_pos (List.mem_eraseDups.2 h), KeySupply.eraseDups_concat_of_mem h]
    · rw [if_neg (fun hmem => h (List.mem_eraseDups.1 hmem)),
        KeySupply.eraseDups_concat_of_not_mem h]

/-! ## Conversions -/

/-- Entries are converted if all of their values are, each under its own name. -/
theorem traverseEntries_eq_ok {f : α → Except ε β} {es : List (String × α)}
    {ds : List (String × β)} :
    traverseEntries f es = .ok ds
      ↔ List.Forall₂ (fun e d => d.1 = e.1 ∧ f e.2 = .ok d.2) es ds := by
  induction es generalizing ds with
  | nil =>
    rw [List.forall₂_nil_left_iff, traverseEntries]
    exact ⟨fun h => (Except.ok.inj h).symm, fun h => by rw [h]⟩
  | cons e rest ih =>
    obtain ⟨name, a⟩ := e
    rw [traverseEntries, List.forall₂_cons_left_iff]
    constructor
    · intro h
      obtain ⟨b, hb, h⟩ := bind_eq_ok.1 h
      obtain ⟨bs, hbs, h⟩ := bind_eq_ok.1 h
      cases h
      exact ⟨(name, b), bs, ⟨rfl, hb⟩, ih.1 hbs, rfl⟩
    · rintro ⟨⟨name', b⟩, bs, ⟨hname, hb⟩, hbs, rfl⟩
      cases hname
      exact bind_eq_ok.2 ⟨b, hb, bind_eq_ok.2 ⟨bs, ih.2 hbs, rfl⟩⟩

/-- The conversion of entries fails as it does for the first value that it fails for. -/
theorem traverseEntries_eq_error {f : α → Except ε β} {es : List (String × α)} {e : ε} :
    traverseEntries f es = .error e ↔ ∃ before name a after, es = before ++ (name, a) :: after
      ∧ (∀ d ∈ before, ∃ b, f d.2 = .ok b) ∧ f a = .error e := by
  induction es with
  | nil =>
    rw [traverseEntries]
    constructor
    · intro h
      cases h
    · rintro ⟨before, name, a, after, h, -⟩
      simp at h
  | cons d rest ih =>
    obtain ⟨name, a⟩ := d
    rw [traverseEntries, bind_eq_error]
    constructor
    · rintro (ha | ⟨b, hb, h⟩)
      · exact ⟨[], name, a, rest, rfl, List.forall_mem_nil _, ha⟩
      · -- the first value is converted, so a later one fails
        rcases bind_eq_error.1 h with hrest | ⟨bs, -, h⟩
        · obtain ⟨before, name', a', after, rfl, hbefore, ha'⟩ := ih.1 hrest
          exact ⟨(name, a) :: before, name', a', after, rfl,
            List.forall_mem_cons.2 ⟨⟨b, hb⟩, hbefore⟩, ha'⟩
        · cases h
    · rintro ⟨before, name', a', after, heq, hbefore, ha'⟩
      cases before with
      | nil =>
        cases heq
        exact .inl ha'
      | cons d before =>
        cases heq
        obtain ⟨⟨b, hb⟩, hbefore⟩ := List.forall_mem_cons.1 hbefore
        have hrest := ih.2 ⟨before, name', a', after, rfl, hbefore, ha'⟩
        exact .inr ⟨b, hb, bind_eq_error.2 (.inl hrest)⟩

/-- A conversion that succeeds keeps every name in its place. -/
theorem traverse_eq_ok {f : α → Except ε β} {m : OrderedMap α} {n : OrderedMap β} :
    m.traverse f = .ok n
      ↔ List.Forall₂ (fun e d => d.1 = e.1 ∧ f e.2 = .ok d.2) m.entries n.entries := by
  rw [← traverseEntries_eq_ok, traverse, map_eq_ok]
  constructor
  · rintro ⟨ds, hds, rfl⟩
    exact hds
  · exact fun h => ⟨n.entries, h, rfl⟩

/-- A conversion that fails does so at the first value that `f` fails for. -/
theorem traverse_eq_error {f : α → Except ε β} {m : OrderedMap α} {e : ε} :
    m.traverse f = .error e ↔ ∃ before name a after, m.entries = before ++ (name, a) :: after
      ∧ (∀ d ∈ before, ∃ b, f d.2 = .ok b) ∧ f a = .error e := by
  rw [← traverseEntries_eq_error, traverse, map_eq_error]

/-- A conversion keeps the names in their order. -/
theorem keys_of_traverse {f : α → Except ε β} {m : OrderedMap α} {n : OrderedMap β}
    (h : m.traverse f = .ok n) : n.keys = m.keys := by
  have general {es : List (String × α)} {ds : List (String × β)}
      (h : List.Forall₂ (fun e d => d.1 = e.1 ∧ f e.2 = .ok d.2) es ds) :
      ds.map (·.1) = es.map (·.1) := by
    induction h with
    | nil => rfl
    | cons hd _ ih => rw [List.map_cons, List.map_cons, ih, hd.1]
  exact general (traverse_eq_ok.1 h)

/-- After a conversion, what is found under a name is what the old value was converted to. -/
theorem get?_of_traverse {f : α → Except ε β} {m : OrderedMap α} {n : OrderedMap β}
    (h : m.traverse f = .ok n) (name : String) :
    n.get? name = (m.get? name).bind fun a => (f a).toOption := by
  have general {es : List (String × α)} {ds : List (String × β)}
      (h : List.Forall₂ (fun e d => d.1 = e.1 ∧ f e.2 = .ok d.2) es ds) :
      lookup name ds = (lookup name es).bind fun a => (f a).toOption := by
    induction h with
    | nil => rfl
    | @cons e d es ds hd _ ih =>
      obtain ⟨hname, hb⟩ := hd
      rw [lookup, lookup, hname]
      by_cases hk : e.1 = name
      · rw [if_pos hk, if_pos hk, Option.bind_some, hb]
        rfl
      · rw [if_neg hk, if_neg hk, ih]
  exact general (traverse_eq_ok.1 h)

/-- A map and its chronicle are converted together; no name moves. -/
theorem Told.convert {c : Chronicle α} {m : OrderedMap α} (h : Told c m) {f : α → Except ε β}
    {n : OrderedMap β} (hn : m.traverse f = .ok n) : Told (c.convert f) n := by
  have hkeys := keys_of_traverse hn
  refine ⟨?_, fun name => ?_, fun name => ?_, ?_, h.past⟩
  · unfold Distinct
    rw [hkeys]
    exact h.distinct
  · rw [get?_of_traverse hn, h.get]
    rfl
  · rw [hkeys]
    exact h.present name
  · rw [hkeys]
    exact h.order

/-! ## Whole histories -/

/-- **What one operation keeps, a history keeps.** -/
theorem told_of_map? {h : History α} {m : OrderedMap α} (hm : h.map? = some m) :
    Told h.chronicle m := by
  -- every operation on the map is matched by one on the chronicle
  induction h with
  | ofList pairs =>
    cases hm
    exact told_ofList pairs
  | insert before name value ih =>
    obtain ⟨m₀, hm₀, rfl⟩ := Option.map_eq_some_iff.1 hm
    exact (ih hm₀).insert name value
  | remove before name ih =>
    obtain ⟨m₀, hm₀, rfl⟩ := Option.map_eq_some_iff.1 hm
    exact (ih hm₀).erase name
  | overwrite before name value ih =>
    obtain ⟨m₀, hm₀, rfl⟩ := Option.map_eq_some_iff.1 hm
    exact (ih hm₀).overwrite name value
  | extend before pairs ih =>
    obtain ⟨m₀, hm₀, rfl⟩ := Option.map_eq_some_iff.1 hm
    exact (ih hm₀).extend pairs
  | convert before f ih =>
    obtain ⟨m₀, hm₀, hn⟩ := Option.bind_eq_some_iff.1 hm
    exact (ih hm₀).convert (toOption_eq_some.1 hn)

/-- A history leads to a map if and only if its conversions succeed. -/
theorem exists_map?_iff (h : History α) : (∃ m, h.map? = some m) ↔ h.Succeeds := by
  induction h with
  | ofList pairs => exact ⟨fun _ => trivial, fun _ => ⟨_, rfl⟩⟩
  | insert before name value ih => simp [History.map?, History.Succeeds, ← ih]
  | remove before name ih => simp [History.map?, History.Succeeds, ← ih]
  | overwrite before name value ih => simp [History.map?, History.Succeeds, ← ih]
  | extend before pairs ih => simp [History.map?, History.Succeeds, ← ih]
  | convert before f ih =>
    rw [History.Succeeds, ← ih, History.map?]
    constructor
    · rintro ⟨n, hn⟩
      obtain ⟨m, hm, hn⟩ := Option.bind_eq_some_iff.1 hn
      refine ⟨⟨m, hm⟩, fun name a ha => ?_⟩
      -- the converted map holds something under the name
      have told := told_of_map? hm
      rw [← told.get] at ha
      have hname := exists_get?_iff.1 ⟨a, ha⟩
      rw [← keys_of_traverse (toOption_eq_some.1 hn)] at hname
      obtain ⟨b, hb⟩ := exists_get?_iff.2 hname
      rw [get?_of_traverse (toOption_eq_some.1 hn), ha, Option.bind_some] at hb
      exact ⟨b, toOption_eq_some.1 hb⟩
    · rintro ⟨⟨m, hm⟩, hf⟩
      rw [hm, Option.bind_some]
      cases hn : m.traverse f with
      | ok n => exact ⟨n, rfl⟩
      | error e =>
        -- the value that it fails for was written
        obtain ⟨before', name, a, after, hentries, -, ha⟩ := traverse_eq_error.1 hn
        have told := told_of_map? hm
        have hmem : (name, a) ∈ m.entries := by simp [hentries]
        have hwritten := told.get name
        rw [get?, (lookup_eq_some_iff told.distinct).2 hmem] at hwritten
        obtain ⟨b, hb⟩ := hf name a hwritten.symm
        rw [ha] at hb
        cases hb

/-! ## Maps that are read -/

/-- The name of a member is read as it is read by itself. -/
theorem readName_eq_ok {name : Json.Name} {key : String} :
    Json.readName name = .ok key ↔ name.read = .ok key := by
  unfold Json.readName
  cases name.read <;> simp

/-- Reading the members of an object reads their names and their values. -/
theorem readMembers_eq_ok {read : Json.Reader α} {ending : Option Json.Break}
    {members : List (Json.Name × Json.Draft)} {pairs : List (String × α)} :
    Json.readMembers read ending members = .ok pairs ↔ ending = none
      ∧ List.Forall₂ (fun member e => member.1.read = .ok e.1 ∧ read member.2 = .ok e.2)
          members pairs := by
  induction members generalizing pairs with
  | nil =>
    rw [Json.readMembers, List.forall₂_nil_left_iff]
    constructor
    · intro h
      cases ending with
      | none => exact ⟨rfl, (Except.ok.inj h).symm⟩
      | some b => cases h
    · rintro ⟨rfl, rfl⟩
      rfl
  | cons member rest ih =>
    obtain ⟨name, d⟩ := member
    -- names and values are read in turn, member by member, and the ending is looked at last
    rw [Json.readMembers, List.forall₂_cons_left_iff]
    constructor
    · intro h
      obtain ⟨key, hkey, h⟩ := bind_eq_ok.1 h
      obtain ⟨a, ha, h⟩ := bind_eq_ok.1 h
      obtain ⟨as, has, h⟩ := bind_eq_ok.1 h
      cases h
      obtain ⟨hending, hrest⟩ := ih.1 has
      exact ⟨hending, (key, a), as, ⟨readName_eq_ok.1 hkey, ha⟩, hrest, rfl⟩
    · rintro ⟨hending, ⟨key, a⟩, as, ⟨hkey, ha⟩, hrest, rfl⟩
      refine bind_eq_ok.2 ⟨key, readName_eq_ok.2 hkey, bind_eq_ok.2 ⟨a, ha, ?_⟩⟩
      exact bind_eq_ok.2 ⟨as, ih.2 ⟨hending, hrest⟩, rfl⟩

/-- **A map that is read** is built from the members of its object, in their order. -/
theorem readMap_eq_ok {read : Json.Reader α} {d : Json.Draft} {m : OrderedMap α} :
    Json.readMap read d = .ok m ↔ ∃ members pairs, d = .object false members none
      ∧ List.Forall₂ (fun member e => member.1.read = .ok e.1 ∧ read member.2 = .ok e.2)
          members pairs
      ∧ m = ofList pairs := by
  constructor
  · intro h
    cases d with
    | object deep members ending =>
      cases deep with
      | true => cases h
      | false =>
        obtain ⟨pairs, hpairs, hm⟩ := map_eq_ok.1 h
        obtain ⟨rfl, hmembers⟩ := readMembers_eq_ok.1 hpairs
        exact ⟨members, pairs, rfl, hmembers, hm.symm⟩
    | _ => cases h
  · rintro ⟨members, pairs, rfl, hmembers, rfl⟩
    exact map_eq_ok.2 ⟨pairs, readMembers_eq_ok.2 ⟨rfl, hmembers⟩, rfl⟩

/-- An attribute that is a map is read as maps are. -/
theorem readPayload_map (d : Json.Draft) :
    AttributeValue.readPayload "M" d
      = (Json.readMap AttributeValue.read d).map AttributeValue.m := by
  cases d with
  | object deep members ending =>
    cases deep with
    | true => rfl
    | false =>
      show (AttributeValue.readEntries ending members).map _
        = ((Json.readMembers AttributeValue.read ending members).map ofList).map AttributeValue.m
      rw [AttributeMap.readMembers_eq]
      cases AttributeValue.readEntries ending members <;> rfl
  | _ => rfl

/-! ## What a map tells -/

/-- What can be told from a map about its history. -/
structure Faithful (h : History α) (m : OrderedMap α) : Prop where
  distinct : m.keys.Nodup
  /-- A name holds what was written under it last, since it was last removed. -/
  get : ∀ name, m.get? name = h.chronicle.written? name
  entries : ∀ name a, (name, a) ∈ m.entries ↔ h.chronicle.written? name = some a
  /-- The names that are present are listed in the order in which they came in last. -/
  present : ∀ name, name ∈ m.keys ↔ ∃ i, h.chronicle.arrived? name = some i
  order : m.keys.Pairwise h.chronicle.Before
  size : m.size = {name | ∃ a, h.chronicle.written? name = some a}.ncard
  /-- Writing and removing return what was there before. -/
  exchanged : ∀ name a, (m.exchange name a).1 = h.chronicle.written? name
  removed : ∀ name, (m.remove name).1 = h.chronicle.written? name
  overwritten : ∀ name a, (m.overwrite? name a).isSome = (h.chronicle.written? name).isSome
  /-- Converting keeps every name in its place, or fails as it does for the first value that it
  fails for. -/
  converted : ∀ {β ε : Type} (f : α → Except ε β),
    (∀ n, m.traverse f = .ok n
        ↔ List.Forall₂ (fun e d => d.1 = e.1 ∧ f e.2 = .ok d.2) m.entries n.entries)
      ∧ ∀ e, m.traverse f = .error e ↔ ∃ before name a after,
          m.entries = before ++ (name, a) :: after
            ∧ (∀ d ∈ before, ∃ b, f d.2 = .ok b) ∧ f a = .error e

/-- A map that tells the chronicle of its history shows it in all the ways in which it can be asked.
-/
theorem faithful_of_told {h : History α} {m : OrderedMap α} (told : Told h.chronicle m) :
    Faithful h m where
  distinct := told.distinct
  get := told.get
  entries name a := by
    rw [← told.get]
    exact (lookup_eq_some_iff told.distinct).symm
  present := told.present
  order := told.order
  size := by
    -- the names that are written and the keys of the map are one set, in which no key is met twice
    have hset : {name | ∃ a, h.chronicle.written? name = some a} = ↑m.keys.toFinset := by
      ext name
      rw [Set.mem_ofPred_eq, ← told.get, exists_get?_iff, Finset.mem_coe, List.mem_toFinset]
    rw [hset, Set.ncard_coe_finset, List.toFinset_card_of_nodup told.distinct]
    simp [size, keys]
  exchanged name _ := told.get name
  removed name := told.get name
  overwritten name a := by
    rw [← told.get, overwrite?]
    by_cases hname : name ∈ m.keys
    · obtain ⟨b, hb⟩ := exists_get?_iff.2 hname
      rw [if_pos (contains_iff.2 hname), hb]
      rfl
    · rw [if_neg (fun hc => hname (contains_iff.1 hc)), get?_eq_none_iff.2 hname]
      rfl
  converted _ := ⟨fun _ => traverse_eq_ok, fun _ => traverse_eq_error⟩

/-- **A map tells its history.** It is there unless a conversion failed, and holds what its history
says, in the order that its history says. Pairs that a map is built from leave the first place and
the last value of each name; a map that is read, also within an attribute value, is built from the
members of its object. -/
theorem told_by_history :
    (∀ {α : Type} (h : History α), (h.Succeeds ↔ ∃ m, h.map? = some m)
        ∧ ∀ m, h.map? = some m → Faithful h m)
      ∧ (∀ {α : Type} (pairs : List (String × α)), (ofList pairs).keys = (pairs.map (·.1)).eraseDups
        ∧ ∀ name, (ofList pairs).get? name = lastOf pairs name)
      ∧ (∀ {α : Type} (read : Json.Reader α) d m, Json.readMap read d = .ok m
        ↔ ∃ members pairs, d = .object false members none
          ∧ List.Forall₂ (fun member e => member.1.read = .ok e.1 ∧ read member.2 = .ok e.2)
              members pairs
          ∧ m = ofList pairs)
      ∧ ∀ d, AttributeValue.readPayload "M" d
        = (Json.readMap AttributeValue.read d).map AttributeValue.m := by
  refine ⟨fun h => ⟨(exists_map?_iff h).symm, fun m hm => faithful_of_told (told_of_map? hm)⟩,
    fun pairs => ⟨keys_ofList pairs, (told_ofList pairs).get⟩, fun read d m => readMap_eq_ok,
    readPayload_map⟩

/-- Names that are repeated, overwritten, removed and written again; the values are converted. -/
def restless : History Nat :=
  .convert (.extend (.insert (.remove (.overwrite (.overwrite
      (.ofList [("a", 1), ("b", 2), ("a", 3)]) "a" 4) "z" 9) "a") "a" 5) [("c", 6), ("b", 7)])
    fun n => if n < 9 then Except.ok (n + 1) else Except.error "too large"

/-- The name that is repeated and overwritten keeps its place, until it is removed; written again,
it comes after the others. All values are converted in the end. -/
theorem told_by_history_restless :
    restless.Succeeds ∧ restless.map? = some ⟨[("b", 8), ("a", 6), ("c", 7)]⟩
      ∧ Faithful restless ⟨[("b", 8), ("a", 6), ("c", 7)]⟩ :=
  ⟨(told_by_history.1 restless).1.2 ⟨_, rfl⟩, rfl, (told_by_history.1 restless).2 _ rfl⟩

end OrderedMap

end TableQuery
