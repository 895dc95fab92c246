import TableQuery.Connection
import TableQuery.Proofs.Direct
import TableQuery.Proofs.Report

/-!
# Steps of a request

A step sets an option or makes calls on the condition of one slot. Which slot and which calls is
told by `Step.added?`; what the step mentions and what it says of each slot follows from that.

* **`step_inv`** — all that a step does to the conditions of a request.
* **`options_steps`**, **`option_steps`** — the options after a run of steps: each holds what it was
  set to last.
* **`steps_keyed`** — the clauses in every slot after a run of steps are the direct clauses of the
  steps, every column and value replaced by the key that it has in the table that the request ends
  with, however the steps were spread over the slots.
-/

namespace TableQuery

open Mention (columnsOf valuesOf InRange)
open Placeholders (ofMentions)

/-! ## What a step adds -/

namespace Step

/-- The slot that a shorthand names, and the call that it makes there. -/
def ofShorthand (name : String) (arguments : Shorthand.Arguments) :
    Except RequestError (Slot × List Call) := do
  let shorthand ← Shorthand.named name
  let call ← shorthand.call arguments
  return (shorthand.slot, [call])

/-- The slot that a step adds to, and the calls that it makes there. -/
def added? : Step → Option (Slot × List Call)
  | .set _ => none
  | .add slot calls => some (slot, calls)
  | .addNamed name arguments => (ofShorthand name arguments).toOption

/-- The option that a step sets. -/
def setting? : Step → Option Setting
  | .set setting => some setting
  | _ => none

def mentions (s : Step) : List Mention :=
  match s.added? with
  | some (_, calls) => Call.mentionsAll calls
  | none => []

/-- What a step says in a slot, over columns and values themselves. -/
def direct (slot : Slot) (s : Step) : List (Clause String Value) :=
  match s.added? with
  | some (target, calls) => if target = slot then Call.directAll calls else []
  | none => []

/-- No clause of the step was built over another table. -/
def isNative : Step → Bool
  | .set _ => true
  | .add _ calls => Call.areNative calls
  | .addNamed _ _ => true

/-- Shorthands make plain calls. -/
theorem areNative_ofShorthand {name : String} {arguments : Shorthand.Arguments} {slot : Slot}
    {calls : List Call} (h : ofShorthand name arguments = .ok (slot, calls)) :
    Call.areNative calls = true := by
  obtain ⟨shorthand, -, h⟩ := bind_eq_ok.1 h
  obtain ⟨call, hcall, h⟩ := bind_eq_ok.1 h
  cases h
  unfold Shorthand.call at hcall
  split at hcall
  · cases hcall
    cases arguments <;> rfl
  · cases hcall

theorem areNative_of_added? {s : Step} {slot : Slot} {calls : List Call}
    (native : s.isNative = true) (h : s.added? = some (slot, calls)) :
    Call.areNative calls = true := by
  cases s with
  | set _ => cases h
  | add _ _ =>
    cases h
    exact native
  | addNamed name arguments =>
    simp only [added?] at h
    cases hs : ofShorthand name arguments with
    | error e =>
      rw [hs] at h
      cases h
    | ok a =>
      rw [hs] at h
      cases h
      exact areNative_ofShorthand hs

/-! ## What steps refer to -/

/-- Every clause of every slot has an expression. -/
def Sound (steps : List Step) : Prop :=
  ∀ slot, Clause.faultsAll (steps.flatMap (direct slot)) = []

theorem account_direct (s : Step) :
    (s.added? = none ∧ s.mentions = [] ∧ ∀ slot, s.direct slot = [])
      ∨ ∃ target, Clause.Account (s.direct target) s.mentions
          ∧ ∀ slot, slot ≠ target → s.direct slot = [] := by
  cases hadded : s.added? with
  | none => exact .inl ⟨rfl, by simp [mentions, hadded], fun slot => by simp [direct, hadded]⟩
  | some a =>
    obtain ⟨target, calls⟩ := a
    refine .inr ⟨target, ?_, fun slot hne => by simp [direct, hadded, hne.symm]⟩
    simp only [direct, mentions, hadded, if_true]
    exact Call.account_directAll calls

/-- The clauses of a slot refer to nothing that the steps do not mention. -/
theorem direct_subset (slot : Slot) (steps : List Step) :
    Clause.columnsAll (steps.flatMap (direct slot)) ⊆ columnsOf (steps.flatMap mentions)
      ∧ Clause.valuesAll (steps.flatMap (direct slot)) ⊆ valuesOf (steps.flatMap mentions) := by
  induction steps with
  | nil => exact ⟨List.Subset.refl _, List.Subset.refl _⟩
  | cons s rest ih =>
    simp only [List.flatMap_cons, Clause.columnsAll_append, Clause.valuesAll_append,
      Mention.columnsOf_append, Mention.valuesOf_append]
    -- a step says nothing in the slots that it does not add to
    have hs : Clause.columnsAll (s.direct slot) ⊆ columnsOf s.mentions
        ∧ Clause.valuesAll (s.direct slot) ⊆ valuesOf s.mentions := by
      obtain ⟨-, -, hnil⟩ | ⟨target, haccount, hother⟩ := s.account_direct
      · rw [hnil slot]
        exact ⟨List.nil_subset _, List.nil_subset _⟩
      · by_cases h : slot = target
        · exact h ▸ ⟨haccount.columns, haccount.values⟩
        · rw [hother slot h]
          exact ⟨List.nil_subset _, List.nil_subset _⟩
    exact ⟨List.append_subset.2 ⟨List.subset_append_of_subset_left _ hs.1,
        List.subset_append_of_subset_right _ ih.1⟩,
      List.append_subset.2 ⟨List.subset_append_of_subset_left _ hs.2,
        List.subset_append_of_subset_right _ ih.2⟩⟩

/-- Where every clause has an expression, all that the steps mention is referred to in some slot. -/
theorem mentions_subset {steps : List Step} (sound : Sound steps) :
    (∀ c ∈ columnsOf (steps.flatMap mentions),
        ∃ slot, c ∈ Clause.columnsAll (steps.flatMap (direct slot)))
      ∧ ∀ v ∈ valuesOf (steps.flatMap mentions),
        ∃ slot, v ∈ Clause.valuesAll (steps.flatMap (direct slot)) := by
  induction steps with
  | nil => exact ⟨nofun, nofun⟩
  | cons s rest ih =>
    have hs : ∀ slot, Clause.faultsAll (s.direct slot) = [] := fun slot => by
      have hall := sound slot
      rw [List.flatMap_cons, Clause.faultsAll_append, List.append_eq_nil_iff] at hall
      exact hall.1
    have hrest : Sound rest := fun slot => by
      have hall := sound slot
      rw [List.flatMap_cons, Clause.faultsAll_append, List.append_eq_nil_iff] at hall
      exact hall.2
    -- the one slot that the step adds to refers to everything that the step mentions
    have hstep : (∀ c ∈ columnsOf s.mentions, ∃ slot, c ∈ Clause.columnsAll (s.direct slot))
        ∧ ∀ v ∈ valuesOf s.mentions, ∃ slot, v ∈ Clause.valuesAll (s.direct slot) := by
      obtain ⟨-, hnone, -⟩ | ⟨target, haccount, -⟩ := s.account_direct
      · rw [hnone]
        exact ⟨nofun, nofun⟩
      · obtain ⟨hcolumns, hvalues⟩ := haccount.all (hs target)
        exact ⟨fun c hc => ⟨target, hcolumns ▸ hc⟩, fun v hv => ⟨target, hvalues ▸ hv⟩⟩
    obtain ⟨ihcolumns, ihvalues⟩ := ih hrest
    simp only [List.flatMap_cons, Mention.columnsOf_append, Mention.valuesOf_append,
      Clause.columnsAll_append, Clause.valuesAll_append, List.mem_append]
    refine ⟨fun c hc => ?_, fun v hv => ?_⟩
    · rcases hc with hc | hc
      · obtain ⟨slot, hslot⟩ := hstep.1 c hc
        exact ⟨slot, .inl hslot⟩
      · obtain ⟨slot, hslot⟩ := ihcolumns c hc
        exact ⟨slot, .inr hslot⟩
    · rcases hv with hv | hv
      · obtain ⟨slot, hslot⟩ := hstep.2 v hv
        exact ⟨slot, .inl hslot⟩
      · obtain ⟨slot, hslot⟩ := ihvalues v hv
        exact ⟨slot, .inr hslot⟩

end Step

namespace Conditions

theorem placeholders_append (c : Conditions) (slot : Slot) (cs : List KeyedClause) :
    (c.append slot cs).placeholders = c.placeholders := by
  cases slot <;> rfl

theorem clauses_append (c : Conditions) (slot : Slot) (cs : List KeyedClause) (other : Slot) :
    (c.append slot cs).clauses other
      = c.clauses other ++ if slot = other then cs else [] := by
  cases slot <;> cases other <;> simp [append, clauses]

/-- Calls on a slot use the table of all slots. -/
theorem placeholders_add (c : Conditions) (slot : Slot) (calls : List Call) :
    (c.add slot calls).placeholders = c.placeholders.after (Call.mentionsAll calls) := by
  rw [add, placeholders_append]
  exact Call.clausesOfAll_after _ calls

/-- Calls on a slot add to that slot and to no other. -/
theorem clauses_add (c : Conditions) (slot : Slot) (calls : List Call) (other : Slot) :
    (c.add slot calls).clauses other
      = c.clauses other ++ if slot = other then (Call.clausesOfAll c.placeholders calls).1 else [] := by
  rw [add, clauses_append]
  cases other <;> rfl

end Conditions

namespace Request

/-- **All that a step does to the conditions**: nothing, or calls on one slot. -/
theorem step_inv {r r' : Request} {s : Step} (h : r.step s = .ok r') :
    (s.added? = none ∧ r'.conditions = r.conditions)
      ∨ ∃ slot calls, s.added? = some (slot, calls)
          ∧ r'.conditions = r.conditions.add slot calls := by
  cases s with
  | set setting =>
    cases h
    exact .inl ⟨rfl, rfl⟩
  | add slot calls =>
    cases h
    exact .inr ⟨slot, calls, rfl, rfl⟩
  | addNamed name arguments =>
    -- a name that resolves adds the one call of its shorthand
    obtain ⟨shorthand, hnamed, h⟩ := bind_eq_ok.1 h
    obtain ⟨call, hcall, h⟩ := bind_eq_ok.1 h
    cases h
    refine .inr ⟨shorthand.slot, [call], ?_, rfl⟩
    have hs : Step.ofShorthand name arguments = .ok (shorthand.slot, [call]) :=
      bind_eq_ok.2 ⟨shorthand, hnamed, bind_eq_ok.2 ⟨call, hcall, rfl⟩⟩
    simp [Step.added?, hs, Except.toOption]

theorem steps_concat (r : Request) (ss : List Step) (s : Step) :
    r.steps (ss ++ [s]) = r.steps ss >>= (·.step s) := by
  induction ss generalizing r with
  | nil =>
    show (r.step s >>= fun r => r.steps []) = r.step s
    cases r.step s <;> rfl
  | cons first rest ih =>
    show (r.step first >>= fun r => r.steps (rest ++ [s]))
      = (r.step first >>= fun r => r.steps rest) >>= (·.step s)
    cases r.step first with
    | error e => rfl
    | ok r => exact ih r

/-- What native steps keep, native runs keep. -/
theorem steps_invariant {P : Request → Prop}
    (hstep : ∀ {r r' : Request} {s : Step}, P r → r.step s = .ok r' → s.isNative = true → P r')
    {r r' : Request} {steps : List Step} (hr : P r) (h : r.steps steps = .ok r')
    (native : steps.all Step.isNative = true) : P r' := by
  induction steps generalizing r with
  | nil =>
    cases h
    exact hr
  | cons s rest ih =>
    obtain ⟨r₁, hfirst, hrest⟩ := bind_eq_ok.1 h
    rw [List.all_cons, Bool.and_eq_true] at native
    exact ih (hstep hr hfirst native.1) hrest native.2

theorem step_placeholders {r r' : Request} {s : Step} (h : r.step s = .ok r') :
    r'.conditions.placeholders = r.conditions.placeholders.after s.mentions := by
  unfold Step.mentions
  obtain ⟨hadded, hc⟩ | ⟨slot, calls, hadded, hc⟩ := step_inv h
  · rw [hadded, hc]
    rfl
  · rw [hadded, hc, Conditions.placeholders_add]

/-- **The table after steps** is the table after what the steps mention. -/
theorem steps_placeholders {r r' : Request} {steps : List Step} (h : r.steps steps = .ok r') :
    r'.conditions.placeholders = r.conditions.placeholders.after (steps.flatMap Step.mentions) := by
  induction steps generalizing r with
  | nil =>
    cases h
    rfl
  | cons s rest ih =>
    obtain ⟨r₁, hstep, hrest⟩ := bind_eq_ok.1 h
    rw [ih hrest, step_placeholders hstep, List.flatMap_cons, Placeholders.after_append]

/-! ## Options -/

/-- A step sets one option, or none, and leaves the table as it is. -/
theorem step_options {r r' : Request} {s : Step} (h : r.step s = .ok r') :
    r'.options = s.setting?.toList.foldl Options.set r.options ∧ r'.table = r.table := by
  cases s with
  | set setting =>
    cases h
    exact ⟨rfl, rfl⟩
  | add slot calls =>
    cases h
    exact ⟨rfl, rfl⟩
  | addNamed name arguments =>
    obtain ⟨shorthand, -, h⟩ := bind_eq_ok.1 h
    obtain ⟨call, -, h⟩ := bind_eq_ok.1 h
    cases h
    exact ⟨rfl, rfl⟩

/-- **The options after a run of steps** are set one after the other. -/
theorem options_steps {r r' : Request} {steps : List Step} (h : r.steps steps = .ok r') :
    r'.options = (steps.filterMap Step.setting?).foldl Options.set r.options
      ∧ r'.table = r.table := by
  induction steps generalizing r with
  | nil =>
    cases h
    exact ⟨rfl, rfl⟩
  | cons s rest ih =>
    obtain ⟨r₁, hstep, hrest⟩ := bind_eq_ok.1 h
    obtain ⟨hoptions, htable⟩ := step_options hstep
    obtain ⟨ihoptions, ihtable⟩ := ih hrest
    refine ⟨?_, ihtable.trans htable⟩
    rw [ihoptions, hoptions, ← List.foldl_append]
    cases hs : s.setting? <;> simp [hs]

/-- **An option** that a setting replaces, or leaves as it is, holds what it was set to last. -/
theorem option_steps {α : Type} {option : Options → α} {replaced : Setting → Option α}
    (hset : ∀ o setting, option (o.set setting) = (replaced setting).getD (option o))
    {r r' : Request} {steps : List Step} (h : r.steps steps = .ok r') :
    option r'.options
      = (steps.reverse.findSome? fun s => s.setting?.bind replaced).getD (option r.options) := by
  induction steps generalizing r with
  | nil =>
    cases h
    rfl
  | cons s rest ih =>
    obtain ⟨r₁, hstep, hrest⟩ := bind_eq_ok.1 h
    have hfirst : option r₁.options = (s.setting?.bind replaced).getD (option r.options) := by
      rw [(step_options hstep).1]
      cases s.setting? with
      | none => rfl
      | some setting => exact hset r.options setting
    -- what a later step sets counts
    rw [ih hrest, hfirst, List.reverse_cons, List.findSome?_append, Option.getD_or,
      List.findSome?_singleton]

section

variable {final : List Mention}

/-- One step adds its direct clauses to every slot, keyed by the table that the request ends with. -/
theorem step_keyed (range : InRange final) {r r' : Request} {s : Step} {ms : List Mention}
    (h : r.step s = .ok r') (native : s.isNative = true)
    (htable : r.conditions.placeholders = ofMentions ms) (hfinal : ms ++ s.mentions <+: final)
    (slot : Slot) :
    r'.conditions.clauses slot
      = r.conditions.clauses slot
        ++ Clause.mapAll (ofMentions final).nameOf (ofMentions final).valueOf (s.direct slot) := by
  obtain ⟨hadded, hc⟩ | ⟨target, calls, hadded, hc⟩ := step_inv h
  · rw [hc, Step.direct, hadded]
    simp [Clause.mapAll]
  · have hcalls := Step.areNative_of_added? native hadded
    rw [Step.mentions, hadded] at hfinal
    rw [hc, Conditions.clauses_add, Step.direct, hadded, htable,
      Call.clausesOfAll_keyed range calls hcalls hfinal]
    -- the other slots stay as they are
    by_cases ht : target = slot
    · simp [ht]
    · simp [ht, Clause.mapAll]

/-- **The clauses after a run of steps** are the direct clauses of the steps, keyed by the table that
the request ends with. Induction on the run: what was mentioned before is a prefix of `final`. -/
theorem steps_keyed (range : InRange final) {r r' : Request} {steps : List Step} {ms : List Mention}
    (h : r.steps steps = .ok r') (native : steps.all Step.isNative = true)
    (htable : r.conditions.placeholders = ofMentions ms)
    (hfinal : ms ++ steps.flatMap Step.mentions <+: final) (slot : Slot) :
    r'.conditions.clauses slot
      = r.conditions.clauses slot
        ++ Clause.mapAll (ofMentions final).nameOf (ofMentions final).valueOf
            (steps.flatMap (Step.direct slot)) := by
  induction steps generalizing r ms with
  | nil =>
    cases h
    simp [Clause.mapAll]
  | cons s rest ih =>
    obtain ⟨r₁, hstep, hrest⟩ := bind_eq_ok.1 h
    rw [List.all_cons, Bool.and_eq_true] at native
    rw [List.flatMap_cons, ← List.append_assoc] at hfinal
    have hone : ms ++ s.mentions <+: final := (List.prefix_append _ _).trans hfinal
    -- the next step finds the table of all that was mentioned up to it
    have htable₁ : r₁.conditions.placeholders = ofMentions (ms ++ s.mentions) := by
      rw [step_placeholders hstep, htable, Placeholders.after_ofMentions (range.of_prefix hone)]
    rw [ih hrest native.2 htable₁ hfinal, step_keyed range hstep native.1 htable hone,
      List.flatMap_cons, Clause.mapAll_append, List.append_assoc]

end

end Request

end TableQuery
