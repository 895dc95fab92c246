/-!
# Checks in a row

Most of what a request is made of is checked step by step: a step may fail, and nothing after it is
looked at then.

* **`bind_eq_ok`**, **`map_eq_ok`**, **`mapError_eq_ok`** — where a computation succeeded, its steps
  did.
* **`bind_eq_error`**, **`map_eq_error`** — where it failed, one step did, after those before.
* **`forM_eq_ok`**, **`forM_eq_error`** — a list of checks reports the first that fails.
* **`report_bind`** — where the outcome of every check is known beforehand, the first offence of all
  is reported.
* **`Lockstep.bind`** — two runs that are alike so far go on alike.
-/

namespace TableQuery

section

variable {ε α β : Type}

/-- A step that succeeded hands its result to the next one. -/
theorem ok_bind (a : α) (f : α → Except ε β) : (.ok a >>= f) = f a := rfl

/-- Where two steps in a row succeeded, both did, and the second was given the result of the first.
By this lemma a run is taken apart without opening it. -/
theorem bind_eq_ok {x : Except ε α} {f : α → Except ε β} {b : β} :
    (x >>= f) = .ok b ↔ ∃ a, x = .ok a ∧ f a = .ok b := by
  cases x <;> simp [bind, Except.bind]

/-- Where a converted result is there, the result was there before. -/
theorem map_eq_ok {x : Except ε α} {f : α → β} {b : β} :
    x.map f = .ok b ↔ ∃ a, x = .ok a ∧ f a = b := by
  cases x <;> simp [Except.map]

/-- Wording an error differently lets results through. -/
theorem mapError_eq_ok {ε' : Type} {x : Except ε α} {f : ε → ε'} {a : α} :
    x.mapError f = .ok a ↔ x = .ok a := by
  cases x with
  | error e => exact ⟨nofun, nofun⟩
  | ok b =>
    exact ⟨fun h => congrArg Except.ok (Except.ok.inj h),
      fun h => congrArg Except.ok (Except.ok.inj h)⟩

/-- Where two steps in a row failed, the first did, or it succeeded and the second failed. -/
theorem bind_eq_error {x : Except ε α} {f : α → Except ε β} {e : ε} :
    (x >>= f) = .error e ↔ x = .error e ∨ ∃ a, x = .ok a ∧ f a = .error e := by
  cases x <;> simp [bind, Except.bind]

/-- A conversion of results passes errors on. -/
theorem map_eq_error {x : Except ε α} {f : α → β} {e : ε} :
    x.map f = .error e ↔ x = .error e := by
  cases x <;> simp [Except.map]

/-- Forgetting the error keeps the results. -/
theorem toOption_eq_some {x : Except ε α} {a : α} : x.toOption = some a ↔ x = .ok a := by
  cases x <;> simp [Except.toOption]

/-- The first offence; the result, if there is none. -/
def report : List ε → α → Except ε α
  | [], a => .ok a
  | e :: _, _ => .error e

/-- Two reports in a row are one report: the offences of the first come before those of the second,
of which nothing is seen if the first has any. -/
theorem report_bind {es fs : List ε} {a : α} {b : β} {f : α → Except ε β}
    (h : f a = report fs b) : (report es a >>= f) = report (es ++ fs) b := by
  cases es with
  | nil => exact h
  | cons e rest => rfl

/-- What comes after the last check cannot fail. -/
theorem report_bind_ok {es : List ε} {a : α} {b : β} {f : α → Except ε β}
    (h : f a = .ok b) : (report es a >>= f) = report es b := by
  cases es with
  | nil => exact h
  | cons e rest => rfl

/-- What is done to a result after a report does not touch the offences. -/
theorem report_bind_pure {es : List ε} {a : α} {f : α → β} :
    (report es a >>= fun a => pure (f a)) = report es (f a) :=
  report_bind_ok rfl

/-- A result that is only converted is reported like the result. -/
theorem report_map {es : List ε} {a : α} {f : α → β} :
    (report es a).map f = report es (f a) := by
  cases es <;> rfl

/-- A report succeeds if there is no offence, and only then. -/
theorem report_eq_ok {es : List ε} {a b : α} : report es a = .ok b ↔ es = [] ∧ a = b := by
  cases es <;> simp [report]

/-- A report fails with the first offence. -/
theorem report_eq_error {es : List ε} {a : α} {e : ε} : report es a = .error e ↔ es.head? = some e := by
  cases es <;> simp [report]

/-- A list of checks succeeds where each of them does. -/
theorem forM_eq_ok {as : List α} {f : α → Except ε Unit} :
    forM as f = .ok () ↔ ∀ a ∈ as, f a = .ok () := by
  induction as with
  | nil => exact ⟨fun _ => nofun, fun _ => rfl⟩
  | cons a rest ih =>
    rw [List.forM_cons, bind_eq_ok, List.forall_mem_cons, ← ih]
    exact ⟨fun ⟨_, ha, hrest⟩ => ⟨ha, hrest⟩, fun ⟨ha, hrest⟩ => ⟨(), ha, hrest⟩⟩

/-- Where a check fails, the first one that does is reported. -/
theorem forM_eq_error {as : List α} {f : α → Except ε Unit} {e : ε} :
    forM as f = .error e ↔ ∃ before a after, as = before ++ a :: after
      ∧ (∀ b ∈ before, f b = .ok ()) ∧ f a = .error e := by
  induction as with
  | nil => exact ⟨nofun, fun ⟨before, a, after, h, _⟩ => by simp at h⟩
  | cons a rest ih =>
    -- the first action fails, or it succeeds and one behind it is the first to fail
    rw [List.forM_cons, bind_eq_error, ih]
    constructor
    · rintro (ha | ⟨_, ha, before, b, after, rfl, hbefore, hb⟩)
      · exact ⟨[], a, rest, rfl, nofun, ha⟩
      · exact ⟨a :: before, b, after, rfl, List.forall_mem_cons.2 ⟨ha, hbefore⟩, hb⟩
    · rintro ⟨before, b, after, heq, hbefore, hb⟩
      cases before with
      | nil =>
        cases heq
        exact .inl hb
      | cons d before =>
        cases heq
        obtain ⟨ha, hbefore⟩ := List.forall_mem_cons.1 hbefore
        exact .inr ⟨(), ha, before, b, after, rfl, hbefore, hb⟩

end

/-! ## Two runs side by side -/

section

variable {ε α β α' β' : Type}

/-- Two runs that fail with the same error, or both succeed with results that belong together. -/
inductive Lockstep (R : α → β → Prop) : Except ε α → Except ε β → Prop where
  | error (e : ε) : Lockstep R (.error e) (.error e)
  | ok {a : α} {b : β} (h : R a b) : Lockstep R (.ok a) (.ok b)

namespace Lockstep

/-- A run goes along with itself. -/
theorem refl (x : Except ε α) : Lockstep (· = ·) x x := by
  cases x with
  | error e => exact .error e
  | ok a => exact .ok rfl

/-- **Two runs that are alike so far go on alike**, if the next steps do so on results that belong
together. -/
theorem bind {R : α → β → Prop} {S : α' → β' → Prop} {x : Except ε α} {y : Except ε β}
    {f : α → Except ε α'} {g : β → Except ε β'} (h : Lockstep R x y)
    (hnext : ∀ a b, R a b → Lockstep S (f a) (g b)) : Lockstep S (x >>= f) (y >>= g) := by
  cases h with
  | error e => exact .error e
  | ok h => exact hnext _ _ h

/-- Two runs in lockstep end alike where what is made of their results is the same. -/
theorem map_eq {γ : Type} {R : α → β → Prop} {x : Except ε α} {y : Except ε β} {f : α → γ}
    {g : β → γ} (h : Lockstep R x y) (hresult : ∀ a b, R a b → f a = g b) : x.map f = y.map g := by
  cases h with
  | error e => rfl
  | ok h => exact congrArg Except.ok (hresult _ _ h)

end Lockstep

end

end TableQuery
