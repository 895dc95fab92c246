import TableQuery.Proofs.Sharing
import TableQuery.Proofs.Steps

/-!
# Requests that are built in turn

A request keeps its declarations in a table of its own, to which it has a handle and its three slots
have clones of that handle. So requests that are started on one connection and built in turn use many
handles, and a step of one of them must not be seen by another.

* **`Builder.read_step`**, **`Builder.read_step_of_apart`** — a step through the handle of a slot is
  the step of the request, and no other request sees it.
* **`Desk.Sound.move`**, **`Desk.Sound.run`** — what one move keeps, a run of moves keeps.
* **`sharing_exact`** — handles share by their origin, and a table is used as if nobody else had one,
  so each request is the one that its own steps make.
-/

namespace TableQuery

/-! ## Requests whose tables are kept elsewhere -/

namespace Request

/-- The request with another table. -/
def withTable (r : Request) (t : Placeholders) : Request :=
  { r with conditions := { r.conditions with placeholders := t } }

/-- A step of a request whose table is kept elsewhere. -/
def stepOver (r : Except RequestError Request) (s : Step) (t : Placeholders) :
    Except RequestError Request × Placeholders :=
  match r >>= fun r => (r.withTable t).step s with
  | .ok r => (.ok r, r.conditions.placeholders)
  | .error e => (.error e, t)

/-- Where the table is kept makes no difference. -/
theorem map_withTable_stepOver (r : Except RequestError Request) (s : Step) (t : Placeholders) :
    (stepOver r s t).1.map (·.withTable (stepOver r s t).2)
      = (r.map (·.withTable t)) >>= (·.step s) := by
  cases r with
  | error e => rfl
  | ok r =>
    show _ = (r.withTable t).step s
    have hbind : (Except.ok r >>= fun r => (r.withTable t).step s) = (r.withTable t).step s := rfl
    unfold stepOver
    rw [hbind]
    cases (r.withTable t).step s <;> rfl

end Request

/-- A request that is being built, and its handles: one of its own, and one for each slot. -/
structure Builder where
  request : Except RequestError Request
  own : Nat
  filter : Nat
  condition : Nat
  keyCondition : Nat

namespace Builder

def handle (b : Builder) : Slot → Nat
  | .filter => b.filter
  | .condition => b.condition
  | .keyCondition => b.keyCondition

/-- The handle that a step declares columns and values through. -/
def handleOf (b : Builder) (s : Step) : Nat :=
  match s.added? with
  | some (slot, _) => b.handle slot
  | none => b.own

/-- A step of the request, through the handle that it uses. -/
def step (b : Builder) (tables : SharedTables) (s : Step) : Builder × SharedTables :=
  let (request, tables) := tables.update (b.handleOf s) (Request.stepOver b.request s)
  ({ b with request }, tables)

/-- The request with the table that it has now. -/
def read (b : Builder) (tables : SharedTables) : Except RequestError Request :=
  b.request.map (·.withTable (tables.table b.own))

end Builder

/-- Requests that are being built at the same time. -/
structure Desk where
  tables : SharedTables := ⟨[], []⟩
  builders : List Builder := []

inductive DeskMove where
  /-- Starts a request on a table. -/
  | start (table : String)
  | step (builder : Nat) (s : Step)

namespace Desk

section

variable {σ : Type} (c : Connection σ)

/-- A new request has a new table, and a clone of its handle for each slot. -/
def start (d : Desk) (table : String) : Desk :=
  let (own, tables) := d.tables.create
  let (filter, tables) := tables.clone own
  let (condition, tables) := tables.clone own
  let (keyCondition, tables) := tables.clone own
  ⟨tables, d.builders ++ [⟨.ok (c.table table), own, filter, condition, keyCondition⟩]⟩

def stepAt (d : Desk) (i : Nat) (b : Builder) (s : Step) : Desk :=
  let (b, tables) := b.step d.tables s
  ⟨tables, d.builders.set i b⟩

def move (d : Desk) : DeskMove → Option Desk
  | .start table => some (d.start c table)
  | .step i s => (d.builders[i]?).map fun b => d.stepAt i b s

def run (d : Desk) : List DeskMove → Option Desk
  | [] => some d
  | m :: rest => (d.move c m).bind fun d => d.run rest

end

/-- The request that is being built by a builder. -/
def read (d : Desk) (i : Nat) : Option (Except RequestError Request) :=
  (d.builders[i]?).map fun b => b.read d.tables

end Desk

namespace DeskMove

def started? : DeskMove → Option String
  | .start table => some table
  | .step .. => none

/-- The step of one builder. -/
def stepOf? (i : Nat) : DeskMove → Option Step
  | .start _ => none
  | .step builder s => if builder = i then some s else none

end DeskMove

/-- The handles of a builder belong to one table. -/
structure Builder.Placed (b : Builder) (tables : SharedTables) : Prop where
  made : b.own < tables.owners.length
  shares : ∀ slot, tables.shares (b.handle slot) b.own = true

namespace Builder

variable {b : Builder} {tables tables' : SharedTables}

/-- Whatever handle a step uses, it belongs to the table of its request. -/
theorem Placed.handleOf (h : b.Placed tables) (s : Step) :
    tables.shares (b.handleOf s) b.own = true := by
  unfold Builder.handleOf
  cases s.added? with
  | none => exact tables.shares_refl b.own
  | some a => exact h.shares a.1

/-- The handles of a builder stay in one table when others are made. -/
theorem Placed.extends (h : b.Placed tables) (hextends : tables.Extends tables') :
    b.Placed tables' := by
  refine ⟨Nat.lt_of_lt_of_le h.made hextends.owners.length_le, fun slot => ?_⟩
  rw [hextends.shares (SharedTables.lt_of_shares (h.shares slot) h.made) h.made]
  exact h.shares slot

theorem step_fst (s : Step) : (b.step tables s).1
    = { b with request := (tables.update (b.handleOf s) (Request.stepOver b.request s)).1 } := rfl

theorem step_snd (s : Step) : (b.step tables s).2
    = (tables.update (b.handleOf s) (Request.stepOver b.request s)).2 := rfl

theorem wellFormed_step (wf : tables.WellFormed) (s : Step) : (b.step tables s).2.WellFormed := by
  rw [step_snd]
  exact wf.update

theorem shares_step (s : Step) (h h' : Nat) :
    (b.step tables s).2.shares h h' = tables.shares h h' := by
  rw [step_snd, SharedTables.shares_update]

/-- The handles of a builder stay in one table, whoever makes a step. -/
theorem Placed.step (h : b.Placed tables) (other : Builder) (s : Step) :
    b.Placed (other.step tables s).2 := by
  rw [step_snd]
  refine ⟨?_, fun slot => ?_⟩
  · rw [SharedTables.owners_update]
    exact h.made
  · rw [SharedTables.shares_update]
    exact h.shares slot

/-- A request is read as before when other handles are made. -/
theorem read_extends (wf : tables.WellFormed) (h : b.Placed tables)
    (hextends : tables.Extends tables') : b.read tables' = b.read tables := by
  unfold read
  rw [hextends.table wf h.made]

/-- **A step through a handle** is the step of the request with the table that it has now. -/
theorem read_step (wf : tables.WellFormed) (h : b.Placed tables) (s : Step) :
    (b.step tables s).1.read (b.step tables s).2 = b.read tables >>= (·.step s) := by
  have hshares := h.handleOf s
  have made := SharedTables.lt_of_shares hshares h.made
  have htable := SharedTables.table_of_shares hshares
  rw [SharedTables.shares_comm] at hshares
  rw [step_fst, step_snd, read, SharedTables.update_fst,
    SharedTables.table_update_of_shares wf made hshares, htable]
  exact Request.map_withTable_stepOver b.request s (tables.table b.own)

/-- **Other requests** do not see the step. -/
theorem read_step_of_apart {other : Builder} (h : b.Placed tables)
    (apart : tables.shares other.own b.own = false) (s : Step) :
    other.read (b.step tables s).2 = other.read tables := by
  have hother : tables.shares other.own (b.handleOf s) = false := by
    unfold SharedTables.shares at apart ⊢
    rw [SharedTables.shares_iff.1 (h.handleOf s)]
    exact apart
  rw [step_snd, read, read, SharedTables.table_update_of_not_shares hother]

end Builder

namespace Desk

section

variable {σ : Type} {c : Connection σ} {d d' : Desk}

/-- What a start does: there is one more builder, over an empty table of its own. -/
structure Started (c : Connection σ) (table : String) (d d' : Desk) (b : Builder) : Prop where
  builders : d'.builders = d.builders ++ [b]
  extended : d.tables.Extends d'.tables
  wellFormed : d'.tables.WellFormed
  placed : b.Placed d'.tables
  apart : ∀ a < d.tables.owners.length, d'.tables.shares a b.own = false
  read : b.read d'.tables = .ok (c.table table)

/-- A start makes one handle and three clones of it. The table is empty and none of the old handles
shares it. -/
theorem started (wf : d.tables.WellFormed) (table : String) :
    ∃ b, Started c table d (d.start c table) b := by
  -- the tables after each of the four handles
  obtain ⟨t₁, h₁, created⟩ := SharedTables.create_inv wf
  have made₁ : d.tables.owners.length < t₁.owners.length := by
    rw [created.length]
    exact Nat.lt_succ_self _
  obtain ⟨t₂, h₂, cloned₂⟩ := SharedTables.clone_inv created.wellFormed made₁
  have made₂ := Nat.lt_of_lt_of_le made₁ cloned₂.extended.owners.length_le
  obtain ⟨t₃, h₃, cloned₃⟩ := SharedTables.clone_inv cloned₂.wellFormed made₂
  have made₃ := Nat.lt_of_lt_of_le made₂ cloned₃.extended.owners.length_le
  obtain ⟨t₄, h₄, cloned₄⟩ := SharedTables.clone_inv cloned₃.wellFormed made₃
  have made₄ := Nat.lt_of_lt_of_le made₃ cloned₄.extended.owners.length_le
  have h₂₄ := cloned₃.extended.trans cloned₄.extended
  have h₁₄ := cloned₂.extended.trans h₂₄
  have hstart : d.start c table = ⟨t₄, d.builders ++ [⟨.ok (c.table table), d.tables.owners.length,
      t₁.owners.length, t₂.owners.length, t₃.owners.length⟩]⟩ := by
    unfold start
    simp only [h₁, h₂, h₃, h₄]
  rw [hstart]
  refine ⟨_, rfl, created.extended.trans h₁₄, cloned₄.wellFormed, ⟨made₄, fun slot => ?_⟩,
    fun a ha => ?_, ?_⟩
  · cases slot with
    | filter =>
      show t₄.shares t₁.owners.length d.tables.owners.length = true
      rw [h₂₄.shares (by rw [cloned₂.length]; exact Nat.lt_succ_self _) made₂]
      exact cloned₂.shares
    | condition =>
      show t₄.shares t₂.owners.length d.tables.owners.length = true
      rw [cloned₄.extended.shares (by rw [cloned₃.length]; exact Nat.lt_succ_self _) made₃]
      exact cloned₃.shares
    | keyCondition => exact cloned₄.shares
  · show t₄.shares a d.tables.owners.length = false
    rw [h₁₄.shares (Nat.lt_trans ha made₁) made₁]
    exact created.apart a ha
  · show Except.ok ((c.table table).withTable (t₄.table d.tables.owners.length)) = _
    rw [h₁₄.table created.wellFormed made₁, created.table]
    rfl

/-- What moves keep: every builder holds the request that its own steps make on their own. -/
structure Sound (c : Connection σ) (plan : List DeskMove) (d : Desk) : Prop where
  wellFormed : d.tables.WellFormed
  placed : ∀ b ∈ d.builders, b.Placed d.tables
  apart : ∀ {i j : Nat} {b b' : Builder}, d.builders[i]? = some b → d.builders[j]? = some b' →
    d.tables.shares b.own b'.own = true → i = j
  count : d.builders.length = (plan.filterMap DeskMove.started?).length
  idle : ∀ i, d.builders.length ≤ i → plan.filterMap (DeskMove.stepOf? i) = []
  alone : ∀ {i : Nat} {b : Builder}, d.builders[i]? = some b →
    ∃ table, (plan.filterMap DeskMove.started?)[i]? = some table
      ∧ b.read d.tables = (c.table table).steps (plan.filterMap (DeskMove.stepOf? i))

/-- Before the first move there is no builder. -/
theorem sound_empty (c : Connection σ) : Sound c [] {} where
  wellFormed := by simp [SharedTables.WellFormed]
  placed := by simp
  apart := by simp
  count := by simp
  idle := by simp
  alone := by simp

/-- A new builder holds the request that no steps make, and the others are read as before. -/
theorem Sound.start {plan : List DeskMove} (sound : d.Sound c plan) (table : String) :
    Sound c (plan ++ [.start table]) (d.start c table) := by
  obtain ⟨b, hb⟩ := started (c := c) sound.wellFormed table
  have hstarted : (plan ++ [DeskMove.start table]).filterMap DeskMove.started?
      = plan.filterMap DeskMove.started? ++ [table] := List.filterMap_append
  have hsteps (i : Nat) : (plan ++ [DeskMove.start table]).filterMap (DeskMove.stepOf? i)
      = plan.filterMap (DeskMove.stepOf? i) := by simp [DeskMove.stepOf?]
  have hmade {i : Nat} {b : Builder} (h : d.builders[i]? = some b) :=
    sound.placed b (List.mem_of_getElem? h)
  refine ⟨hb.wellFormed, fun b' hb' => ?_, fun {i j b₁ b₂} h₁ h₂ hshares => ?_, ?_, fun i hi => ?_,
    fun {i b'} hb' => ?_⟩
  · rw [hb.builders] at hb'
    rcases List.mem_append.1 hb' with hold | hnew
    · exact (sound.placed b' hold).extends hb.extended
    · rw [List.mem_singleton.1 hnew]
      exact hb.placed
  · rw [hb.builders] at h₁ h₂
    -- two old builders, two new ones, or one of each, which cannot share
    rcases getElem?_concat_eq_some.1 h₁ with h₁ | ⟨rfl, rfl⟩ <;>
      rcases getElem?_concat_eq_some.1 h₂ with h₂ | ⟨rfl, rfl⟩
    · rw [hb.extended.shares (hmade h₁).made (hmade h₂).made] at hshares
      exact sound.apart h₁ h₂ hshares
    · rw [hb.apart _ (hmade h₁).made] at hshares
      cases hshares
    · rw [SharedTables.shares_comm, hb.apart _ (hmade h₂).made] at hshares
      cases hshares
    · rfl
  · rw [hb.builders, hstarted, List.length_append, List.length_append, sound.count]
    rfl
  · rw [hb.builders, List.length_append] at hi
    rw [hsteps]
    exact sound.idle i (Nat.le_of_succ_le hi)
  · rw [hb.builders] at hb'
    rw [hstarted, hsteps]
    rcases getElem?_concat_eq_some.1 hb' with hold | ⟨rfl, rfl⟩
    · obtain ⟨name, hname, hread⟩ := sound.alone hold
      refine ⟨name, getElem?_concat_eq_some.2 (.inl hname), ?_⟩
      rw [Builder.read_extends sound.wellFormed (hmade hold) hb.extended, hread]
    · refine ⟨table, getElem?_concat_eq_some.2 (.inr ⟨sound.count, rfl⟩), ?_⟩
      rw [hb.read, sound.idle _ (Nat.le_refl _)]
      rfl

/-- A step goes on with the request of its own builder, and the others are read as before, since
they have tables of their own. -/
theorem Sound.step {plan : List DeskMove} (sound : d.Sound c plan) {i : Nat} {b : Builder}
    (hb : d.builders[i]? = some b) (s : Step) : Sound c (plan ++ [.step i s]) (d.stepAt i b s) := by
  obtain ⟨hi, -⟩ := List.getElem?_eq_some_iff.1 hb
  have hplaced := sound.placed b (List.mem_of_getElem? hb)
  have hstarted : (plan ++ [DeskMove.step i s]).filterMap DeskMove.started?
      = plan.filterMap DeskMove.started? := by simp [DeskMove.started?]
  have hbuilders {j : Nat} {b' : Builder}
      (h : (d.builders.set i (b.step d.tables s).1)[j]? = some b') :
      (j = i ∧ b' = (b.step d.tables s).1) ∨ (j ≠ i ∧ d.builders[j]? = some b') := by
    by_cases hj : j = i
    · rw [hj, List.getElem?_set_self hi] at h
      exact .inl ⟨hj, (Option.some.inj h).symm⟩
    · rw [List.getElem?_set_ne (Ne.symm hj)] at h
      exact .inr ⟨hj, h⟩
  -- the builder keeps its handles
  have hown {j : Nat} {b' : Builder} (h : (d.builders.set i (b.step d.tables s).1)[j]? = some b') :
      ∃ old, d.builders[j]? = some old ∧ old.own = b'.own := by
    rcases hbuilders h with ⟨rfl, rfl⟩ | ⟨-, hold⟩
    · exact ⟨b, hb, rfl⟩
    · exact ⟨b', hold, rfl⟩
  refine ⟨Builder.wellFormed_step sound.wellFormed s, fun b' hb' => ?_,
    fun {j k b₁ b₂} h₁ h₂ h => ?_, ?_, fun j hj => ?_, fun {j b'} hb' => ?_⟩
  · rcases List.mem_or_eq_of_mem_set hb' with hold | rfl
    · exact (sound.placed b' hold).step b s
    · have hkept := hplaced.step b s
      exact ⟨hkept.made, hkept.shares⟩
  · obtain ⟨old₁, hold₁, hown₁⟩ := hown h₁
    obtain ⟨old₂, hold₂, hown₂⟩ := hown h₂
    refine sound.apart hold₁ hold₂ ?_
    rw [hown₁, hown₂, ← h]
    exact (Builder.shares_step s _ _).symm
  · show (d.builders.set i _).length = _
    rw [List.length_set, hstarted]
    exact sound.count
  · have hlength : d.builders.length ≤ j := by simpa [stepAt] using hj
    -- a step of a builder that there is says nothing about those that come later
    have hne : i ≠ j := Nat.ne_of_lt (Nat.lt_of_lt_of_le hi hlength)
    simpa [DeskMove.stepOf?, hne] using sound.idle j hlength
  · rw [hstarted]
    -- the builder that makes the step, or another one
    rcases hbuilders hb' with ⟨rfl, rfl⟩ | ⟨hne, hold⟩
    · obtain ⟨table, htables, hread⟩ := sound.alone hb
      have hsteps : (plan ++ [DeskMove.step j s]).filterMap (DeskMove.stepOf? j)
          = plan.filterMap (DeskMove.stepOf? j) ++ [s] := by simp [DeskMove.stepOf?]
      refine ⟨table, htables, ?_⟩
      rw [hsteps, Request.steps_concat, ← hread]
      exact Builder.read_step sound.wellFormed hplaced s
    · obtain ⟨table, htables, hread⟩ := sound.alone hold
      have hsteps : (plan ++ [DeskMove.step i s]).filterMap (DeskMove.stepOf? j)
          = plan.filterMap (DeskMove.stepOf? j) := by simp [DeskMove.stepOf?, hne.symm]
      have hapart : d.tables.shares b'.own b.own = false := by
        rw [Bool.eq_false_iff]
        exact fun hshares => hne (sound.apart hold hb hshares)
      refine ⟨table, htables, ?_⟩
      rw [hsteps, ← hread]
      exact Builder.read_step_of_apart hplaced hapart s

/-- **One move** leaves every builder with the request that its own steps make. -/
theorem Sound.move {plan : List DeskMove} (sound : d.Sound c plan) {m : DeskMove}
    (h : d.move c m = some d') : d'.Sound c (plan ++ [m]) := by
  cases m with
  | start table =>
    cases h
    exact sound.start table
  | step i s =>
    obtain ⟨b, hb, rfl⟩ := Option.map_eq_some_iff.1 h
    exact sound.step hb s

/-- **A run of moves** leaves every builder with the request that its own steps make. -/
theorem Sound.run {plan moves : List DeskMove} (sound : d.Sound c plan)
    (h : d.run c moves = some d') : d'.Sound c (plan ++ moves) := by
  induction moves generalizing d plan with
  | nil =>
    cases h
    simpa using sound
  | cons m rest ih =>
    obtain ⟨d₁, hmove, hrest⟩ := Option.bind_eq_some_iff.1 h
    have hrun := ih (sound.move hmove) hrest
    rwa [List.append_assoc, List.singleton_append] at hrun

end

end Desk

/-- **Sharing is exact.** Whatever moves are made with whatever handles, two handles share if and only
if they descend by cloning from one that was made anew. What was asked through the handles that share
with a handle is answered as by a table of one's own that is asked just this, in this order, and the
handle is left with the table that this leaves. So whatever requests are started on a connection and
in whatever order their steps are made, each is the request that its own steps make on their own. -/
theorem sharing_exact {moves : List Move} {p : Pool} (made : Pool.run {} moves = some p) {σ : Type}
    (c : Connection σ) {plan : List DeskMove} {d : Desk} (built : Desk.run c {} plan = some d) :
    p.births = moves.filterMap Move.birth?
      ∧ p.log.map Exchange.call = moves.filterMap Move.call?
      ∧ (∀ a b, a < p.births.length → b < p.births.length →
          (p.tables.shares a b = true
            ↔ ∃ origin, Pool.Descends p.births a origin ∧ Pool.Descends p.births b origin))
      ∧ (∀ a, a < p.births.length → p.Alone a)
      ∧ ∀ i table, (plan.filterMap DeskMove.started?)[i]? = some table →
          d.read i = some ((c.table table).steps (plan.filterMap (DeskMove.stepOf? i))) := by
  -- both facts are kept by every move, so they hold after a whole run
  have exact : p.Exact := Pool.exact_empty.run made
  have sound : d.Sound c plan := (Desk.sound_empty c).run built
  obtain ⟨hbirths, hlog⟩ := Pool.run_recorded made
  refine ⟨hbirths, hlog, fun a b ha hb => ?_, fun a ha => ?_, fun i table htable => ?_⟩
  · rw [exact.born] at ha hb
    exact exact.shares_iff ha hb
  · rw [exact.born] at ha
    exact exact.alone a ha
  · obtain ⟨hi, -⟩ := List.getElem?_eq_some_iff.1 htable
    rw [← sound.count] at hi
    have hb := List.getElem?_eq_getElem hi
    obtain ⟨started, hstarted, hread⟩ := sound.alone hb
    rw [htable] at hstarted
    cases hstarted
    rw [Desk.read, hb, Option.map_some, hread]

/-- Two tables, one of them with two handles, are used in turn. -/
def turns : List Move :=
  [.create, .clone 0, .create, .call 0 (.key (.column "Subject")), .call 2 (.key (.column "Views")),
    .call 1 (.key (.column "Views")), .call 2 (.key (.value (.number "1"))), .call 0 .names,
    .call 1 .hasValues]

/-- Two requests are built in turn. -/
def twoRequests : List DeskMove :=
  [.start "Thread", .step 0 (.add .filter [.compare .and "Subject" (.equals (.string "S3"))]),
    .start "Reply", .step 1 (.add .keyCondition [.compare .and "Id" (.equals (.string "S3#1"))]),
    .step 0 (.add .condition [.compare .and "Views" (.operator ">" (.number "1"))]),
    .step 1 (.set (.withKeys { partition := "Id" })),
    .step 1 (.addNamed "orFilterBetween" (.range "Views" (.number "1") (.number "10")))]

def offline : Connection Unit := { client := Client.disconnected }

/-- One table that is used through two handles, another one in between, and two requests that are
built in turn. -/
theorem sharing_exact_turns :
    ∃ p d, Pool.run {} turns = some p ∧ Desk.run offline {} twoRequests = some d
      ∧ p.tables.shares 0 1 = true ∧ p.tables.shares 0 2 = false
      ∧ (p.heard 1).map Exchange.call
        = [(0, .key (.column "Subject")), (1, .key (.column "Views")), (0, .names), (1, .hasValues)]
      ∧ p.Alone 1
      ∧ d.read 0 = some ((Config.table {} "Thread").steps
          [.add .filter [.compare .and "Subject" (.equals (.string "S3"))],
            .add .condition [.compare .and "Views" (.operator ">" (.number "1"))]]) := by
  have made : Pool.run {} turns = some _ := rfl
  have built : Desk.run offline {} twoRequests = some _ := rfl
  obtain ⟨-, -, -, alone, read⟩ := sharing_exact made offline built
  exact ⟨_, _, made, built, rfl, rfl, rfl, alone 1 (by decide), read 0 "Thread" rfl⟩

end TableQuery
