import TableQuery.Placeholders.Sharing
import TableQuery.Proofs.Ledger

/-!
# Sharing is exact

Handles are made anew or as clones of others, and are used in any order. A handle shares its table
with the handles of its origin and with no other, so whoever uses a table through some of them need
not know of the rest.

* **`table_update_of_shares`**, **`table_update_of_not_shares`** — an operation through one handle is
  seen through all that share with it, and through no other.
* **`Extends`** — new handles leave the old ones as they were.
* **`Pool.Exact.move`**, **`Pool.Exact.run`** — what one move keeps, a run of moves keeps.
* **`Pool.Exact.shares_iff`** — handles share if and only if they have one origin.
-/

namespace TableQuery

/-- What stands at a place of a longer list stood there before, or is what was added. -/
theorem getElem?_concat_eq_some {α : Type} {as : List α} {x y : α} {i : Nat} :
    (as ++ [x])[i]? = some y ↔ as[i]? = some y ∨ i = as.length ∧ x = y := by
  rcases Nat.lt_trichotomy i as.length with h | rfl | h
  · rw [List.getElem?_append_left h]
    simp [Nat.ne_of_lt h]
  · simp
  · rw [List.getElem?_eq_none (by simp; omega), List.getElem?_eq_none (Nat.le_of_lt h)]
    simp [Nat.ne_of_gt h]

namespace SharedTables

variable {s s' : SharedTables} {a b handle : Nat}

/-! ## Handles of one table -/

/-- Every handle has a table. -/
def WellFormed (s : SharedTables) : Prop := ∀ owner ∈ s.owners, owner < s.tables.length

/-- Handles share if they have the same owner. -/
theorem shares_iff : s.shares a b = true ↔ s.owners[a]? = s.owners[b]? := by simp [shares]

theorem shares_refl (s : SharedTables) (a : Nat) : s.shares a a = true := shares_iff.2 rfl

theorem shares_comm (s : SharedTables) (a b : Nat) : s.shares a b = s.shares b a := by
  rw [Bool.eq_iff_iff, shares_iff, shares_iff]
  exact eq_comm

theorem shares_trans {c : Nat} (h : s.shares a b = true) (h' : s.shares b c = true) :
    s.shares a c = true :=
  shares_iff.2 ((shares_iff.1 h).trans (shares_iff.1 h'))

/-- Only handles that there are share with one that there is. -/
theorem lt_of_shares (h : s.shares a b = true) (hb : b < s.owners.length) : a < s.owners.length := by
  -- a handle that there is has an owner, so the other one has the same
  have hsome := shares_iff.1 h
  rw [List.getElem?_eq_getElem hb] at hsome
  exact (List.getElem?_eq_some_iff.1 hsome).1

/-- Handles that share see the same table. -/
theorem table_of_shares (h : s.shares a b = true) : s.table a = s.table b := by
  unfold table
  rw [shares_iff.1 h]

/-! ## Operations -/

section

variable {α : Type} {f : Placeholders → α × Placeholders}

/-- What an operation answers depends on the table of its handle only. -/
theorem update_fst : (s.update handle f).1 = (f (s.table handle)).1 := by
  unfold update
  cases s.owners[handle]? <;> rfl

@[simp] theorem owners_update : (s.update handle f).2.owners = s.owners := by
  unfold update
  cases s.owners[handle]? <;> rfl

@[simp] theorem shares_update : (s.update handle f).2.shares a b = s.shares a b := by
  simp [shares]

/-- Every handle still has a table after an operation. -/
theorem WellFormed.update (wf : s.WellFormed) : (s.update handle f).2.WellFormed := by
  unfold SharedTables.update
  cases s.owners[handle]? with
  | none => exact wf
  | some owner =>
    intro o ho
    show o < (s.tables.set owner _).length
    rw [List.length_set]
    exact wf o ho

/-- **An operation is seen through all handles** that share with its own. -/
theorem table_update_of_shares (wf : s.WellFormed) (made : handle < s.owners.length)
    (h : s.shares a handle = true) : (s.update handle f).2.table a = (f (s.table handle)).2 := by
  have howner : s.owners[handle]? = some s.owners[handle] := List.getElem?_eq_getElem made
  have hlt := wf _ (List.getElem_mem made)
  unfold update
  rw [howner]
  show ((s.owners[a]?).bind ((s.tables.set s.owners[handle] _)[·]?)).getD .empty = _
  rw [shares_iff.1 h, howner, Option.bind_some, List.getElem?_set_self hlt]
  rfl

/-- **An operation is not seen** through any other. -/
theorem table_update_of_not_shares (h : s.shares a handle = false) :
    (s.update handle f).2.table a = s.table a := by
  unfold update
  cases howner : s.owners[handle]? with
  | none => rfl
  | some owner =>
    unfold table
    show ((s.owners[a]?).bind ((s.tables.set owner _)[·]?)).getD .empty = _
    cases ha : s.owners[a]? with
    | none => rfl
    | some other =>
      have hne : owner ≠ other := fun heq => by
        rw [shares, ha, howner, heq] at h
        simp at h
      rw [Option.bind_some, Option.bind_some, List.getElem?_set_ne hne]

end

/-! ## New handles -/

/-- Handles and tables may have been added. -/
structure Extends (s s' : SharedTables) : Prop where
  owners : s.owners <+: s'.owners
  tables : s.tables <+: s'.tables

/-- Handles that are left as they were twice are left as they were. -/
theorem Extends.trans {s'' : SharedTables} (h : s.Extends s') (h' : s'.Extends s'') :
    s.Extends s'' :=
  ⟨h.owners.trans h'.owners, h.tables.trans h'.tables⟩

/-- **Old handles keep their tables.** -/
theorem Extends.table (h : s.Extends s') (wf : s.WellFormed) (ha : a < s.owners.length) :
    s'.table a = s.table a := by
  have hlt := wf _ (List.getElem_mem ha)
  unfold SharedTables.table
  rw [List.prefix_iff_getElem?.1 h.owners a ha, List.getElem?_eq_getElem ha, Option.bind_some,
    Option.bind_some, List.prefix_iff_getElem?.1 h.tables _ hlt, List.getElem?_eq_getElem hlt]

/-- Old handles share as before. -/
theorem Extends.shares (h : s.Extends s') (ha : a < s.owners.length) (hb : b < s.owners.length) :
    s'.shares a b = s.shares a b := by
  unfold SharedTables.shares
  rw [List.prefix_iff_getElem?.1 h.owners a ha, List.prefix_iff_getElem?.1 h.owners b hb,
    List.getElem?_eq_getElem ha, List.getElem?_eq_getElem hb]

/-- A handle has been made, with an empty table that no old handle shares. -/
structure Created (s s' : SharedTables) : Prop where
  extended : s.Extends s'
  wellFormed : s'.WellFormed
  length : s'.owners.length = s.owners.length + 1
  table : s'.table s.owners.length = .empty
  apart : ∀ a < s.owners.length, s'.shares a s.owners.length = false

/-- **Making a handle anew**: it has the next number. -/
theorem create_inv (wf : s.WellFormed) : ∃ s', s.create = (s.owners.length, s') ∧ s.Created s' := by
  refine ⟨_, rfl, ⟨List.prefix_append .., List.prefix_append ..⟩, fun o ho => ?_, ?_, ?_,
    fun a ha => ?_⟩
  · show o < (s.tables ++ [Placeholders.empty]).length
    rw [List.length_append, List.length_singleton]
    rcases List.mem_append.1 ho with hold | hnew
    · exact Nat.lt_succ_of_lt (wf o hold)
    · rw [List.mem_singleton.1 hnew]
      exact Nat.lt_succ_self _
  · simp
  · simp [table]
  · have hne : s.owners[a] ≠ s.tables.length := Nat.ne_of_lt (wf _ (List.getElem_mem ha))
    simp [shares, List.getElem?_append_left ha, List.getElem?_eq_getElem ha, hne]

/-- A handle has been made that shares with another. -/
structure Cloned (s : SharedTables) (handle : Nat) (s' : SharedTables) : Prop where
  extended : s.Extends s'
  wellFormed : s'.WellFormed
  length : s'.owners.length = s.owners.length + 1
  shares : s'.shares s.owners.length handle = true

/-- **Making a clone** of a handle: it has the next number. -/
theorem clone_inv (wf : s.WellFormed) (made : handle < s.owners.length) :
    ∃ s', s.clone handle = (s.owners.length, s') ∧ s.Cloned handle s' := by
  have howner : s.owners[handle]? = some s.owners[handle] := List.getElem?_eq_getElem made
  unfold clone
  rw [howner]
  refine ⟨_, rfl, ⟨List.prefix_append .., List.prefix_refl _⟩, fun o ho => ?_, ?_, ?_⟩
  · rcases List.mem_append.1 ho with hold | hnew
    · exact wf o hold
    · rw [List.mem_singleton.1 hnew]
      exact wf _ (List.getElem_mem made)
  · simp
  · rw [shares_iff]
    show (s.owners ++ [s.owners[handle]])[s.owners.length]?
      = (s.owners ++ [s.owners[handle]])[handle]?
    rw [List.getElem?_concat_length, List.getElem?_append_left made, howner]

end SharedTables

/-! ## What is asked of a table -/

/-- What a table can be asked through a handle. -/
inductive TableCall where
  /-- The key of a column or a value, which is declared if it is not yet. -/
  | key (m : Mention)
  /-- The keys of the columns to return, which are declared if they are not yet. -/
  | projection (columns : List String)
  | hasNames
  | hasValues
  | declaresName (key : String)
  | declaresValue (key : String)
  | mentions (column : String)
  /-- The declarations, in the form in which they are sent. -/
  | names
  | values

inductive TableAnswer where
  | key (key : String)
  | projection (keys : Option String)
  | flag (flag : Bool)
  | names (names : OrderedMap String)
  | values (values : AttributeMap)

namespace Placeholders

def answer (t : Placeholders) : TableCall → TableAnswer × Placeholders
  | .key m => (t.use m).map .key id
  | .projection columns => (t.projection columns).map .projection id
  | .hasNames => (.flag !t.names.isEmpty, t)
  | .hasValues => (.flag !t.values.isEmpty, t)
  | .declaresName key => (.flag (t.declaresName key), t)
  | .declaresValue key => (.flag (t.declaresValue key), t)
  | .mentions column => (.flag (t.mentions column), t)
  | .names => (.names t.names, t)
  | .values => (.values t.sentValues, t)

/-- The answers of a table that nobody else uses. -/
def answers (t : Placeholders) : List TableCall → List TableAnswer × Placeholders
  | [] => ([], t)
  | c :: rest =>
    let (a, t) := t.answer c
    let (as, t) := t.answers rest
    (a :: as, t)

/-- A table is asked one more thing after the others. -/
theorem answers_concat (t : Placeholders) (cs : List TableCall) (c : TableCall) :
    t.answers (cs ++ [c])
      = ((t.answers cs).1 ++ [((t.answers cs).2.answer c).1], ((t.answers cs).2.answer c).2) := by
  induction cs generalizing t with
  | nil => rfl
  | cons first rest ih =>
    simp only [List.cons_append, answers, ih]

end Placeholders

/-! ## Moves with handles -/

/-- Handles are numbered in the order in which they are made. -/
inductive Move where
  | create
  | clone (handle : Nat)
  | call (handle : Nat) (c : TableCall)

/-- What was asked through a handle, and the answer. -/
structure Exchange where
  handle : Nat
  asked : TableCall
  answer : TableAnswer

def Exchange.call (e : Exchange) : Nat × TableCall := (e.handle, e.asked)

/-- Handles and their tables, with the record of how they came about. -/
structure Pool where
  tables : SharedTables := ⟨[], []⟩
  /-- For each handle, the one that it is a clone of; nothing if it was made anew. -/
  births : List (Option Nat) := []
  log : List Exchange := []

namespace Pool

def create (p : Pool) : Pool :=
  { p with tables := p.tables.create.2, births := p.births ++ [none] }

def clone (p : Pool) (handle : Nat) : Pool :=
  { p with tables := (p.tables.clone handle).2, births := p.births ++ [some handle] }

def call (p : Pool) (handle : Nat) (c : TableCall) : Pool :=
  let asked := p.tables.update handle (·.answer c)
  { p with tables := asked.2, log := p.log ++ [⟨handle, c, asked.1⟩] }

/-- A move names handles that there are. -/
def move (p : Pool) : Move → Option Pool
  | .create => some p.create
  | .clone handle => if handle < p.tables.owners.length then some (p.clone handle) else none
  | .call handle c => if handle < p.tables.owners.length then some (p.call handle c) else none

def run (p : Pool) : List Move → Option Pool
  | [] => some p
  | m :: rest => (p.move m).bind fun p => p.run rest

/-- What was asked through the handles that share with a handle, in order. -/
def heard (p : Pool) (handle : Nat) : List Exchange :=
  p.log.filter fun e => p.tables.shares e.handle handle

/-- A handle descends by cloning from one that was made anew. -/
inductive Descends (births : List (Option Nat)) : Nat → Nat → Prop where
  | create {a : Nat} (h : births[a]? = some none) : Descends births a a
  | clone {a parent origin : Nat} (h : births[a]? = some (some parent))
      (descends : Descends births parent origin) : Descends births a origin

/-- What has been asked through the handles that share with a handle is answered by a table that
nobody else uses in the same way, and that table is then the one of the handle. -/
def Alone (p : Pool) (handle : Nat) : Prop :=
  Placeholders.empty.answers ((p.heard handle).map Exchange.asked)
    = ((p.heard handle).map Exchange.answer, p.tables.table handle)

/-- What moves keep. -/
structure Exact (p : Pool) : Prop where
  wellFormed : p.tables.WellFormed
  born : p.births.length = p.tables.owners.length
  logged : ∀ e ∈ p.log, e.handle < p.tables.owners.length
  cloned : ∀ a b, p.births[a]? = some (some b) → b < a ∧ p.tables.shares a b = true
  apart : ∀ a b, p.births[a]? = some none → p.births[b]? = some none →
    p.tables.shares a b = true → a = b
  alone : ∀ a < p.tables.owners.length, p.Alone a

/-- Handles that share have heard the same. -/
theorem Alone.of_shares {p : Pool} {a b : Nat} (alone : p.Alone b)
    (h : p.tables.shares a b = true) : p.Alone a := by
  have hheard : p.heard a = p.heard b := by
    unfold heard SharedTables.shares
    rw [SharedTables.shares_iff.1 h]
  unfold Alone
  rw [hheard, SharedTables.table_of_shares h]
  exact alone

theorem exact_empty : Exact {} := ⟨nofun, rfl, nofun, nofun, nofun, nofun⟩

section

variable {p p' : Pool} {handle a : Nat}

/-- New handles leave the old ones as they were. -/
theorem Exact.heard_of_extends (exact : p.Exact) (h : p.tables.Extends p'.tables)
    (hlog : p'.log = p.log) (ha : a < p.tables.owners.length) : p'.heard a = p.heard a := by
  unfold heard
  rw [hlog]
  exact List.filter_congr fun e he => h.shares (exact.logged e he) ha

/-- An old handle has heard the same and sees the same table when handles are added. -/
theorem Exact.alone_of_extends (exact : p.Exact) (h : p.tables.Extends p'.tables)
    (hlog : p'.log = p.log) (ha : a < p.tables.owners.length) : p'.Alone a := by
  unfold Alone
  rw [exact.heard_of_extends h hlog ha, h.table exact.wellFormed ha]
  exact exact.alone a ha

/-- **A new handle** that shares as its birth says, and has heard what its table was asked. -/
theorem Exact.grow (exact : p.Exact) {birth : Option Nat} (wf : p'.tables.WellFormed)
    (h : p.tables.Extends p'.tables)
    (hlength : p'.tables.owners.length = p.tables.owners.length + 1)
    (hbirths : p'.births = p.births ++ [birth]) (hlog : p'.log = p.log)
    (hcloned : ∀ b, birth = some b → b < p.tables.owners.length
      ∧ p'.tables.shares p.tables.owners.length b = true)
    (hapart : birth = none → ∀ a < p.tables.owners.length,
      p'.tables.shares a p.tables.owners.length = false)
    (halone : p'.Alone p.tables.owners.length) : p'.Exact := by
  have hlt {a : Nat} {b : Option Nat} (hb : p.births[a]? = some b) : a < p.tables.owners.length :=
    exact.born ▸ (List.getElem?_eq_some_iff.1 hb).1
  have hborn {a : Nat} {b : Option Nat} : p'.births[a]? = some b ↔
      p.births[a]? = some b ∨ a = p.tables.owners.length ∧ birth = b := by
    rw [hbirths, getElem?_concat_eq_some, exact.born]
  refine ⟨wf, ?_, ?_, fun a b ha => ?_, fun a b ha hb hshares => ?_, fun a ha => ?_⟩
  · rw [hbirths, List.length_append, exact.born, hlength, List.length_singleton]
  · rw [hlog, hlength]
    exact fun e he => Nat.lt_succ_of_lt (exact.logged e he)
  · rcases hborn.1 ha with ha | ⟨rfl, hbirth⟩
    · obtain ⟨hparent, hshares⟩ := exact.cloned a b ha
      rw [h.shares (hlt ha) (Nat.lt_trans hparent (hlt ha))]
      exact ⟨hparent, hshares⟩
    · exact hcloned b hbirth
  · -- one that was made anew shares with none that is older
    rcases hborn.1 ha with hold | ⟨rfl, hnew⟩ <;> rcases hborn.1 hb with hold' | ⟨rfl, hnew'⟩
    · rw [h.shares (hlt hold) (hlt hold')] at hshares
      exact exact.apart a b hold hold' hshares
    · rw [hapart hnew' a (hlt hold)] at hshares
      cases hshares
    · rw [SharedTables.shares_comm, hapart hnew b (hlt hold')] at hshares
      cases hshares
    · rfl
  · rw [hlength] at ha
    rcases Nat.lt_succ_iff_lt_or_eq.1 ha with hold | rfl
    · exact exact.alone_of_extends h hlog hold
    · exact halone

/-- A handle that is made anew starts with an empty table, and no old handle shares it. -/
theorem Exact.create (exact : p.Exact) : p.create.Exact := by
  obtain ⟨tables, hcreate, created⟩ := SharedTables.create_inv exact.wellFormed
  unfold Pool.create
  rw [hcreate]
  refine exact.grow created.wellFormed created.extended created.length rfl rfl nofun
    (fun _ => created.apart) ?_
  -- nothing has been asked through it
  have hheard : p.log.filter (fun e => tables.shares e.handle p.tables.owners.length) = [] :=
    List.filter_eq_nil_iff.2 fun e he => by simp [created.apart _ (exact.logged e he)]
  unfold Alone heard
  rw [hheard, created.table]
  rfl

/-- A clone starts with the table of its origin, and all that has led to it. -/
theorem Exact.clone (exact : p.Exact) (made : handle < p.tables.owners.length) :
    (p.clone handle).Exact := by
  obtain ⟨tables, hclone, cloned⟩ := SharedTables.clone_inv exact.wellFormed made
  unfold Pool.clone
  rw [hclone]
  refine exact.grow cloned.wellFormed cloned.extended cloned.length rfl rfl ?_ nofun ?_
  · rintro b ⟨⟩
    exact ⟨made, cloned.shares⟩
  · -- it has heard what the handle that it was made of has heard
    have hold : Alone { p with tables, births := p.births ++ [some handle] } handle :=
      exact.alone_of_extends cloned.extended rfl made
    exact hold.of_shares cloned.shares

theorem tables_call (p : Pool) (handle : Nat) (c : TableCall) :
    (p.call handle c).tables = (p.tables.update handle (·.answer c)).2 := rfl

/-- A call is recorded with the answer of that table. -/
theorem log_call (p : Pool) (handle : Nat) (c : TableCall) : (p.call handle c).log
    = p.log ++ [⟨handle, c, ((p.tables.table handle).answer c).1⟩] := by
  show p.log ++ [⟨handle, c, (p.tables.update handle (·.answer c)).1⟩] = _
  rw [SharedTables.update_fst]

/-- What is asked through a handle is heard by all that share with it, and answered by their
table. -/
theorem Exact.alone_call (exact : p.Exact) (made : handle < p.tables.owners.length) (c : TableCall)
    (ha : a < p.tables.owners.length) : (p.call handle c).Alone a := by
  have halone : Placeholders.empty.answers ((p.heard a).map Exchange.asked)
      = ((p.heard a).map Exchange.answer, p.tables.table a) := exact.alone a ha
  unfold heard at halone
  unfold Alone heard
  simp only [tables_call, log_call, SharedTables.shares_update, List.filter_append,
    List.filter_singleton]
  -- the call is heard by the handles that share the table, and the others keep table and log
  cases hshares : p.tables.shares handle a with
  | false =>
    rw [SharedTables.shares_comm] at hshares
    rw [SharedTables.table_update_of_not_shares hshares, cond_false, List.append_nil]
    exact halone
  | true =>
    rw [SharedTables.shares_comm] at hshares
    rw [SharedTables.table_update_of_shares exact.wellFormed made hshares,
      ← SharedTables.table_of_shares hshares, cond_true, List.map_append, List.map_append,
      List.map_singleton, List.map_singleton, Placeholders.answers_concat, halone]

/-- A call goes on with what the handles of its origin have heard; the others do not notice. -/
theorem Exact.call (exact : p.Exact) (made : handle < p.tables.owners.length) (c : TableCall) :
    (p.call handle c).Exact := by
  have howners : (p.call handle c).tables.owners = p.tables.owners := by
    rw [tables_call, SharedTables.owners_update]
  have hshares (a b : Nat) : (p.call handle c).tables.shares a b = p.tables.shares a b := by
    rw [tables_call, SharedTables.shares_update]
  have wf : (p.call handle c).tables.WellFormed := by
    rw [tables_call]
    exact exact.wellFormed.update
  refine ⟨wf, ?_, fun e he => ?_, fun a b ha => ?_, fun a b ha hb h => ?_,
    fun a ha => ?_⟩
  · rw [howners]
    exact exact.born
  · rw [howners]
    -- the record has one more exchange, through this handle
    rw [log_call] at he
    rcases List.mem_append.1 he with hold | hnew
    · exact exact.logged e hold
    · rw [List.mem_singleton.1 hnew]
      exact made
  · rw [hshares]
    exact exact.cloned a b ha
  · rw [hshares] at h
    exact exact.apart a b ha hb h
  · rw [howners] at ha
    exact exact.alone_call made c ha

/-- **One move** keeps sharing exact. -/
theorem Exact.move (exact : p.Exact) {m : Move} (h : p.move m = some p') : p'.Exact := by
  cases m with
  | create =>
    cases h
    exact exact.create
  | clone handle =>
    obtain ⟨made, h⟩ := Option.ite_none_right_eq_some.1 h
    cases h
    exact exact.clone made
  | call handle c =>
    obtain ⟨made, h⟩ := Option.ite_none_right_eq_some.1 h
    cases h
    exact exact.call made c

/-- **A run of moves** keeps sharing exact. -/
theorem Exact.run (exact : p.Exact) {ms : List Move} (h : p.run ms = some p') : p'.Exact := by
  induction ms generalizing p with
  | nil =>
    cases h
    exact exact
  | cons m rest ih =>
    obtain ⟨p₁, hmove, hrest⟩ := Option.bind_eq_some_iff.1 h
    exact ih (exact.move hmove) hrest

/-! ## Origins -/

/-- Every handle has an origin. Induction on the number of the handle: a clone is younger than the
handle that it was made of. -/
theorem Exact.descends (exact : p.Exact) (ha : a < p.tables.owners.length) :
    ∃ origin, Descends p.births a origin := by
  induction a using Nat.strongRecOn with
  | ind a ih =>
    have hlt : a < p.births.length := exact.born.symm ▸ ha
    have hbirth : p.births[a]? = some p.births[a] := List.getElem?_eq_getElem hlt
    cases hb : p.births[a] with
    | none => exact ⟨a, .create (hb ▸ hbirth)⟩
    | some parent =>
      rw [hb] at hbirth
      obtain ⟨hparent, -⟩ := exact.cloned a parent hbirth
      obtain ⟨origin, horigin⟩ := ih parent hparent (Nat.lt_trans hparent ha)
      exact ⟨origin, .clone hbirth horigin⟩

/-- A handle shares with its origin, which was made anew. -/
theorem Exact.shares_origin (exact : p.Exact) {origin : Nat} (h : Descends p.births a origin) :
    p.births[origin]? = some none ∧ p.tables.shares a origin = true := by
  induction h with
  | create h => exact ⟨h, p.tables.shares_refl _⟩
  | clone h _ ih => exact ⟨ih.1, SharedTables.shares_trans (exact.cloned _ _ h).2 ih.2⟩

/-- **Handles share if and only if they have one origin.** -/
theorem Exact.shares_iff (exact : p.Exact) {b : Nat} (ha : a < p.tables.owners.length)
    (hb : b < p.tables.owners.length) :
    p.tables.shares a b = true
      ↔ ∃ origin, Descends p.births a origin ∧ Descends p.births b origin := by
  constructor
  · intro h
    obtain ⟨origin, horigin⟩ := exact.descends ha
    obtain ⟨other, hother⟩ := exact.descends hb
    obtain ⟨hnew, hshares⟩ := exact.shares_origin horigin
    obtain ⟨hnew', hshares'⟩ := exact.shares_origin hother
    -- the two origins share, and were both made anew
    rw [SharedTables.shares_comm] at hshares
    have hone : origin = other := exact.apart origin other hnew hnew'
      (SharedTables.shares_trans hshares (SharedTables.shares_trans h hshares'))
    exact ⟨origin, horigin, hone ▸ hother⟩
  · rintro ⟨origin, horigin, hother⟩
    have hshares := (exact.shares_origin hother).2
    rw [SharedTables.shares_comm] at hshares
    exact SharedTables.shares_trans (exact.shares_origin horigin).2 hshares

end

end Pool

/-! ## The record of a run -/

namespace Move

/-- What a move says of the birth of a handle. -/
def birth? : Move → Option (Option Nat)
  | .create => some none
  | .clone handle => some (some handle)
  | .call .. => none

/-- What a move asks, and through which handle. -/
def call? : Move → Option (Nat × TableCall)
  | .call handle c => some (handle, c)
  | _ => none

end Move

namespace Pool

variable {p p' : Pool}

/-- A move adds to the births and to the calls what it says of them, and nothing else. -/
theorem move_recorded {m : Move} (h : p.move m = some p') :
    p'.births = p.births ++ m.birth?.toList
      ∧ p'.log.map Exchange.call = p.log.map Exchange.call ++ m.call?.toList := by
  cases m with
  | create =>
    cases h
    exact ⟨rfl, (List.append_nil _).symm⟩
  | clone handle =>
    obtain ⟨-, h⟩ := Option.ite_none_right_eq_some.1 h
    cases h
    exact ⟨rfl, (List.append_nil _).symm⟩
  | call handle c =>
    obtain ⟨-, h⟩ := Option.ite_none_right_eq_some.1 h
    cases h
    exact ⟨(List.append_nil _).symm, List.map_append⟩

/-- The record is that of the moves that were made. -/
theorem run_recorded {ms : List Move} (h : p.run ms = some p') :
    p'.births = p.births ++ ms.filterMap Move.birth?
      ∧ p'.log.map Exchange.call = p.log.map Exchange.call ++ ms.filterMap Move.call? := by
  induction ms generalizing p with
  | nil =>
    cases h
    simp
  | cons m rest ih =>
    obtain ⟨p₁, hmove, hrest⟩ := Option.bind_eq_some_iff.1 h
    obtain ⟨hbirths, hlog⟩ := ih hrest
    obtain ⟨hbirth, hcall⟩ := move_recorded hmove
    rw [hbirths, hlog, hbirth, hcall, List.append_assoc, List.append_assoc]
    constructor
    · cases hm : m.birth? <;> simp [hm]
    · cases hm : m.call? <;> simp [hm]

end Pool

end TableQuery
