import TableQuery.Proofs.Refusal

/-!
# Writing again, later

A table that is used again declares more, and takes no declaration back. So an expression that could
be written stays as it is, and what was reported stays, too, unless it was the lack of a key that is
declared in the meantime. Where a clause is met first does not matter for this: the offences of
clauses stand in some order, at every depth, and some of them go (`Thinned`).

* **`offencesAll_thinned`** — the offences that go are those of keys that are declared now.
* **`outcome_kept`** — so what is written stays, and the first offence does or was one of those.
* **`faultsAll_eq_nil_iff`** — clauses have no faults if every predicate in them has an expression.
* **`rendering_stable`** — what later uses of a table can do to conditions and updates, and what it
  takes to write a condition at all.
-/

namespace TableQuery

/-! ## Offences that go -/

/-- A list of offences and what is left of it, where only some are gone. -/
inductive Thinned {ε : Type} (gone : ε → Prop) : List ε → List ε → Prop where
  | nil : Thinned gone [] []
  | stays {es es' : List ε} (e : ε) (h : Thinned gone es es') : Thinned gone (e :: es) (e :: es')
  | goes {es es' : List ε} {e : ε} (he : gone e) (h : Thinned gone es es') :
    Thinned gone (e :: es) es'

namespace Thinned

variable {ε α : Type} {gone : ε → Prop} {es es' fs fs' : List ε}

theorem refl (es : List ε) : Thinned gone es es := by
  induction es with
  | nil => exact .nil
  | cons e rest ih => exact .stays e ih

theorem append (h : Thinned gone es es') (later : Thinned gone fs fs') :
    Thinned gone (es ++ fs) (es' ++ fs') := by
  induction h with
  | nil => exact later
  | stays e _ ih => exact .stays e ih
  | goes he _ ih => exact .goes he ih

theorem flatMap (as : List α) {f g : α → List ε} (h : ∀ a, Thinned gone (f a) (g a)) :
    Thinned gone (as.flatMap f) (as.flatMap g) := by
  induction as with
  | nil => exact .nil
  | cons a rest ih =>
    rw [List.flatMap_cons, List.flatMap_cons]
    exact (h a).append ih

/-- What is reported stays, unless it is the first offence that goes. -/
theorem report (h : Thinned gone es es') (a : α) :
    report es' a = report es a ∨ ∃ e, report es a = .error e ∧ gone e := by
  cases h with
  | nil => exact .inl rfl
  | stays e _ => exact .inl rfl
  | goes he _ => exact .inr ⟨_, rfl, he⟩

end Thinned

/-! ## Keys that were missed -/

namespace Placeholders

/-- A key that was missed, of a name or of a value, and is declared as such now. -/
def Supplies (t t' : Placeholders) (key : String) : Prop :=
  (t.declaresName key = false ∧ t'.declaresName key = true)
    ∨ (t.declaresValue key = false ∧ t'.declaresValue key = true)

/-- The lack of a key that is declared now. -/
def Mended (t t' : Placeholders) (e : RequestError) : Prop :=
  ∃ key, e = .danglingPlaceholder key ∧ t.Supplies t' key

variable {t t' : Placeholders}

theorem undeclaredName_thinned (h : t.Extends t') (key : String) :
    Thinned (t.Mended t') (t.undeclaredName key) (t'.undeclaredName key) := by
  unfold undeclaredName
  cases hold : t.declaresName key with
  | true =>
    rw [h.name key hold]
    exact .refl _
  | false =>
    cases hnew : t'.declaresName key with
    | true => exact .goes ⟨key, rfl, .inl ⟨hold, hnew⟩⟩ .nil
    | false => exact .refl _

theorem undeclaredValue_thinned (h : t.Extends t') (key : String) :
    Thinned (t.Mended t') (t.undeclaredValue key) (t'.undeclaredValue key) := by
  unfold undeclaredValue
  cases hold : t.declaresValue key with
  | true =>
    rw [h.value key hold]
    exact .refl _
  | false =>
    cases hnew : t'.declaresValue key with
    | true => exact .goes ⟨key, rfl, .inr ⟨hold, hnew⟩⟩ .nil
    | false => exact .refl _

end Placeholders

open Placeholders

section

variable {t t' : Placeholders}

mutual

/-- Every shape has its own order of checks; the offences go where they stand. -/
theorem Predicate.offences_thinned (h : t.Extends t') : ∀ p : KeyedPredicate,
    Thinned (t.Mended t') (p.offences t) (p.offences t')
  | .basic column _ value =>
    (undeclaredName_thinned h column).append (undeclaredValue_thinned h value)
  | .function _ column (some value) _ =>
    (undeclaredName_thinned h column).append (undeclaredValue_thinned h value)
  | .function _ column none _ => (undeclaredName_thinned h column).append (.refl _)
  | .between column low high _ =>
    (undeclaredName_thinned h column).append
      ((undeclaredValue_thinned h low).append (undeclaredValue_thinned h high))
  | .membership column values _ => by
    rw [Predicate.offences, Predicate.offences]
    cases values with
    | nil => exact .refl _
    | cons v rest =>
      show Thinned _ (List.flatMap _ (v :: rest) ++ _) (List.flatMap _ (v :: rest) ++ _)
      exact (Thinned.flatMap _ (undeclaredValue_thinned h)).append (undeclaredName_thinned h column)
  | .nested clauses => Clause.offencesAll_thinned h clauses
  | .unsupported .. => .refl _

/-- **The offences that go** when a table declares more are those of keys that it declares now. -/
theorem Clause.offencesAll_thinned (h : t.Extends t') : ∀ cs : List KeyedClause,
    Thinned (t.Mended t') (Clause.offencesAll t cs) (Clause.offencesAll t' cs)
  | [] => .nil
  | (_, p) :: rest => (p.offences_thinned h).append (Clause.offencesAll_thinned h rest)

end

theorem Change.offences_thinned (h : t.Extends t') (c : KeyedChange) :
    Thinned (t.Mended t') (c.offences t) (c.offences t') := by
  refine (undeclaredName_thinned h c.column).append ?_
  cases c.value? with
  | none => exact .nil
  | some v => exact undeclaredValue_thinned h v

end

/-! ## What is kept -/

/-- An outcome is kept, unless it reports the lack of a key that is declared now. -/
structure Kept (t t' : Placeholders) {α : Type} (before after : Except RequestError α) : Prop where
  differs : after ≠ before →
    ∃ key, before = .error (.danglingPlaceholder key) ∧ t.Supplies t' key
  written : ∀ a, before = .ok a → after = .ok a
  unsupported : ∀ token reason, before = .error (.unsupportedPredicate token reason) →
    after = .error (.unsupportedPredicate token reason)

/-- The outcome of a list of checks is kept, whatever it comes to where nothing is reported. -/
theorem outcome_kept {t t' : Placeholders} {α : Type} {es es' : List RequestError}
    (h : Thinned (t.Mended t') es es') (a : α) : Kept t t' (report es a) (report es' a) := by
  have hreport := h.report a
  refine ⟨fun hne => ?_, fun b hb => ?_, fun token reason he => ?_⟩
  · obtain ⟨e, he, key, rfl, hkey⟩ := hreport.resolve_left hne
    exact ⟨key, he, hkey⟩
  · rcases hreport with hsame | ⟨e, he, -⟩
    · rw [hsame, hb]
    · rw [hb] at he
      cases he
  · rcases hreport with hsame | ⟨e, he', key, rfl, -⟩
    · rw [hsame, he]
    · rw [he] at he'
      cases he'

/-! ## What it takes to write clauses -/

section

variable {ν ω : Type}

/-- A predicate has an expression, as far as it is not a group: it is a supported one, a membership
has members, and a function that is given no value takes none. -/
def Predicate.Expressible : Predicate ν ω → Prop
  | .function f _ none _ => f.arity = 0
  | .membership _ values _ => values ≠ []
  | .unsupported .. => False
  | _ => True

mutual

theorem Predicate.faults_eq_nil_iff : ∀ p : Predicate ν ω,
    p.faults = [] ↔ p.Expressible ∧ ∀ q ∈ p.inner, q.Expressible
  | .basic .. => by simp [Predicate.faults, Predicate.inner, Predicate.Expressible]
  | .function _ _ (some _) _ => by simp [Predicate.faults, Predicate.inner, Predicate.Expressible]
  | .function f _ none _ => by simp [Predicate.faults, Predicate.inner, Predicate.Expressible]
  | .between .. => by simp [Predicate.faults, Predicate.inner, Predicate.Expressible]
  | .membership _ values _ => by
    cases values <;> simp [Predicate.faults, Predicate.inner, Predicate.Expressible]
  | .nested clauses => by
    rw [Predicate.faults, Predicate.inner, Clause.faultsAll_eq_nil_iff clauses]
    exact ⟨fun h => ⟨trivial, h⟩, fun h => h.2⟩
  | .unsupported .. => by simp [Predicate.faults, Predicate.Expressible]

/-- **Clauses have no faults** if and only if every predicate in them, at every depth, has an
expression. -/
theorem Clause.faultsAll_eq_nil_iff : ∀ cs : List (Clause ν ω),
    Clause.faultsAll cs = [] ↔ ∀ p ∈ Clause.partsAll cs, p.Expressible
  | [] => ⟨fun _ => nofun, fun _ => rfl⟩
  | (_, p) :: rest => by
    rw [Clause.faultsAll, List.append_eq_nil_iff, Predicate.faults_eq_nil_iff p,
      Clause.faultsAll_eq_nil_iff rest, Clause.partsAll, List.forall_mem_append,
      List.forall_mem_cons]

end

end

/-- Clauses that can be written against a table: what they refer to is declared, columns as names
and values as values, and every predicate has an expression. -/
structure Clause.Writable (t : Placeholders) (cs : List KeyedClause) : Prop where
  columns : ∀ key ∈ Clause.columnsAll cs, t.declaresName key = true
  values : ∀ key ∈ Clause.valuesAll cs, t.declaresValue key = true
  expressible : ∀ p ∈ Clause.partsAll cs, p.Expressible

theorem Clause.offencesAll_eq_nil_iff {t : Placeholders} {cs : List KeyedClause} :
    Clause.offencesAll t cs = [] ↔ Clause.Writable t cs := by
  constructor
  · intro h
    have declares := Clause.declared_of_offencesAll cs h
    rw [Clause.offencesAll_of_declared cs declares, List.map_eq_nil_iff] at h
    exact ⟨declares.column, declares.value, (Clause.faultsAll_eq_nil_iff cs).1 h⟩
  · intro h
    rw [Clause.offencesAll_of_declared cs ⟨h.columns, h.values⟩,
      (Clause.faultsAll_eq_nil_iff cs).2 h.expressible]
    rfl

namespace Condition

/-- **Rendering is stable.** Whatever a table is used for later, conditions and updates are written
as before, and fail as before, unless they failed for a key that is declared in the meantime. This
holds for any clauses and changes, built with this table or with another. A condition is written if
and only if its keys are declared and its predicates have expressions. -/
theorem rendering_stable (t : Placeholders) (later : List Mention) :
    (∀ cs, Kept t (t.after later) (writeClauses t cs) (writeClauses (t.after later) cs))
      ∧ (∀ cs, Kept t (t.after later) (expression t cs) (expression (t.after later) cs))
      ∧ (∀ changes, Kept t (t.after later) (Update.expression t changes)
          (Update.expression (t.after later) changes))
      ∧ ∀ cs, (∃ s, writeClauses t cs = .ok s) ↔ Clause.Writable t cs := by
  have hext := t.extends_after later
  refine ⟨fun cs => ?_, fun cs => ?_, fun changes => ?_, fun cs => ?_⟩
  · rw [writeClauses_eq, writeClauses_eq]
    exact outcome_kept (Clause.offencesAll_thinned hext cs) _
  · rw [expression_eq, expression_eq]
    exact outcome_kept (Clause.offencesAll_thinned hext cs) _
  · rw [Update.expression_eq, Update.expression_eq]
    exact outcome_kept (Thinned.flatMap changes (Change.offences_thinned hext)) _
  · rw [← Clause.offencesAll_eq_nil_iff]
    simp [writeClauses_eq_ok]

/-- Clauses of which the first was built with the table of a request, and the second with another
table. -/
def mixedClauses : List KeyedClause :=
  [(.and, .basic "#1" .equal ":1"), (.or, .nested [(.and, .membership "#2" [":2", ":1"] false)])]

/-- The table of the request. -/
def ownTable : Placeholders := Placeholders.empty.after [.column "Views", .value (.bool true)]

/-- The table after one, and after two further uses. -/
def laterTable : Placeholders := ownTable.after [.value .null]

def lastTable : Placeholders := laterTable.after [.column "Tags"]

/-- The members are looked up before the column, so two further uses are needed. -/
theorem rendering_stable_mixed :
    writeClauses ownTable mixedClauses = .error (.danglingPlaceholder ":2")
      ∧ writeClauses laterTable mixedClauses = .error (.danglingPlaceholder "#2")
      ∧ ownTable.Supplies laterTable ":2"
      ∧ Clause.Writable lastTable mixedClauses
      ∧ ∀ later, writeClauses (lastTable.after later) mixedClauses
        = .ok "#1 = :1 or ((#2 in (:2, :1)))" := by
  have hfirst : writeClauses ownTable mixedClauses = .error (.danglingPlaceholder ":2") := rfl
  have hsecond : writeClauses laterTable mixedClauses = .error (.danglingPlaceholder "#2") := rfl
  have hlast : writeClauses lastTable mixedClauses = .ok "#1 = :1 or ((#2 in (:2, :1)))" := rfl
  refine ⟨hfirst, hsecond, ?_, ?_, fun later => ?_⟩
  · have hne : writeClauses laterTable mixedClauses ≠ writeClauses ownTable mixedClauses := by
      rw [hfirst, hsecond]
      simp
    obtain ⟨key, hkey, hsupplies⟩ :=
      ((rendering_stable ownTable [.value .null]).1 mixedClauses).differs hne
    rw [hfirst] at hkey
    cases hkey
    exact hsupplies
  · exact ((rendering_stable lastTable []).2.2.2 mixedClauses).1 ⟨_, hlast⟩
  · exact ((rendering_stable lastTable later).1 mixedClauses).written _ hlast

end Condition

end TableQuery
