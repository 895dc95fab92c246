import TableQuery.Condition.Call

/-!
# Clauses and what they refer to

Clauses are the same thing whatever they refer to columns and values by. This module replaces the
references (`Predicate.map`), lists them from left to right (`Predicate.columns`,
`Predicate.values`), and lists what has no expression (`Predicate.faults`).

* **`Refers`** — what clauses refer to has a property; **`mapAll_congr`** — replacements that agree
  on what they refer to give the same clauses.
* **`columnsAll_mapAll`**, **`valuesAll_mapAll`** — the references of replaced clauses are the
  replaced references.
* **`faultsAll_mapAll`** — replacing references neither mends a clause nor breaks one.
-/

namespace TableQuery

section

variable {ν ω ν' ω' ν'' ω'' : Type}

/-! ## Replacing what a clause refers to -/

mutual

/-- The same predicate over other references: columns are replaced by `f` and values by `g`, and
everything else (operators, functions, negations, reasons) stays. -/
def Predicate.map (f : ν → ν') (g : ω → ω') : Predicate ν ω → Predicate ν' ω'
  | .basic column operator value => .basic (f column) operator (g value)
  | .function fn column value comparison => .function fn (f column) (value.map g) comparison
  | .between column low high negated => .between (f column) (g low) (g high) negated
  | .membership column values negated => .membership (f column) (values.map g) negated
  | .nested clauses => .nested (Clause.mapAll f g clauses)
  | .unsupported token reason => .unsupported token reason

def Clause.mapAll (f : ν → ν') (g : ω → ω') : List (Clause ν ω) → List (Clause ν' ω')
  | [] => []
  | (connector, p) :: rest => (connector, p.map f g) :: Clause.mapAll f g rest

end

/-- Replacing goes clause by clause, so it does not matter how a list of clauses was put together.
-/
theorem Clause.mapAll_append (f : ν → ν') (g : ω → ω') (as bs : List (Clause ν ω)) :
    Clause.mapAll f g (as ++ bs) = Clause.mapAll f g as ++ Clause.mapAll f g bs := by
  induction as with
  | nil => rfl
  | cons c rest ih => simp [Clause.mapAll, ih]

/-- A group is left out where it has no clauses, and replacing references does not change whether it
has any. -/
theorem Call.groupClauses_mapAll (f : ν → ν') (g : ω → ω') (connector : Connector)
    (clauses : List (Clause ν ω)) :
    groupClauses connector (Clause.mapAll f g clauses)
      = Clause.mapAll f g (groupClauses connector clauses) := by
  cases clauses <;> simp [groupClauses, Clause.mapAll, Predicate.map]

mutual

/-- Replacing twice is replacing once, by the composed replacements. The induction is on the
predicate and, where it is a group, on its clauses. -/
theorem Predicate.map_map (f : ν → ν') (g : ω → ω') (f' : ν' → ν'') (g' : ω' → ω'') :
    ∀ p : Predicate ν ω, (p.map f g).map f' g' = p.map (f' ∘ f) (g' ∘ g)
  | .basic .. => rfl
  | .function _ _ value _ => by cases value <;> rfl
  | .between .. => rfl
  | .membership _ values _ => by simp [Predicate.map]
  | .nested clauses => by simp [Predicate.map, Clause.mapAll_mapAll f g f' g' clauses]
  | .unsupported .. => rfl

/-- The same for a list of clauses, one after the other. -/
theorem Clause.mapAll_mapAll (f : ν → ν') (g : ω → ω') (f' : ν' → ν'') (g' : ω' → ω'') :
    ∀ cs : List (Clause ν ω),
      Clause.mapAll f' g' (Clause.mapAll f g cs) = Clause.mapAll (f' ∘ f) (g' ∘ g) cs
  | [] => rfl
  | (_, p) :: rest => by
    simp [Clause.mapAll, Predicate.map_map f g f' g' p, Clause.mapAll_mapAll f g f' g' rest]

end

/-! ## What clauses refer to -/

mutual

/-- The columns that a predicate refers to, from left to right. A token that could not be read
refers to none. -/
def Predicate.columns : Predicate ν ω → List ν
  | .basic column _ _ => [column]
  | .function _ column _ _ => [column]
  | .between column _ _ _ => [column]
  | .membership column _ _ => [column]
  | .nested clauses => Clause.columnsAll clauses
  | .unsupported _ _ => []

def Clause.columnsAll : List (Clause ν ω) → List ν
  | [] => []
  | (_, p) :: rest => p.columns ++ Clause.columnsAll rest

end

mutual

/-- The values that a predicate refers to, from left to right. -/
def Predicate.values : Predicate ν ω → List ω
  | .basic _ _ value => [value]
  | .function _ _ value _ => value.toList
  | .between _ low high _ => [low, high]
  | .membership _ values _ => values
  | .nested clauses => Clause.valuesAll clauses
  | .unsupported _ _ => []

def Clause.valuesAll : List (Clause ν ω) → List ω
  | [] => []
  | (_, p) :: rest => p.values ++ Clause.valuesAll rest

end

/-- Columns are listed clause by clause. -/
@[simp] theorem Clause.columnsAll_append (as bs : List (Clause ν ω)) :
    Clause.columnsAll (as ++ bs) = Clause.columnsAll as ++ Clause.columnsAll bs := by
  induction as with
  | nil => rfl
  | cons c rest ih => simp [Clause.columnsAll, ih]

/-- Values are listed clause by clause. -/
@[simp] theorem Clause.valuesAll_append (as bs : List (Clause ν ω)) :
    Clause.valuesAll (as ++ bs) = Clause.valuesAll as ++ Clause.valuesAll bs := by
  induction as with
  | nil => rfl
  | cons c rest ih => simp [Clause.valuesAll, ih]

/-- A group refers to the columns of its clauses, whether it is left out or not: without clauses
there are none. -/
@[simp] theorem Call.columnsAll_groupClauses (connector : Connector)
    (clauses : List (Clause ν ω)) :
    Clause.columnsAll (groupClauses connector clauses) = Clause.columnsAll clauses := by
  cases clauses <;> simp [groupClauses, Clause.columnsAll, Predicate.columns]

/-- A group refers to the values of its clauses. -/
@[simp] theorem Call.valuesAll_groupClauses (connector : Connector)
    (clauses : List (Clause ν ω)) :
    Clause.valuesAll (groupClauses connector clauses) = Clause.valuesAll clauses := by
  cases clauses <;> simp [groupClauses, Clause.valuesAll, Predicate.values]

mutual

/-- The columns of a replaced predicate are its replaced columns, in the same places. Nothing is
dropped and nothing is moved, so positions can be compared later. -/
theorem Predicate.columns_map (f : ν → ν') (g : ω → ω') :
    ∀ p : Predicate ν ω, (p.map f g).columns = p.columns.map f
  | .basic .. => rfl
  | .function .. => rfl
  | .between .. => rfl
  | .membership .. => rfl
  | .nested clauses => Clause.columnsAll_mapAll f g clauses
  | .unsupported .. => rfl

/-- The same for a list of clauses. -/
theorem Clause.columnsAll_mapAll (f : ν → ν') (g : ω → ω') :
    ∀ cs : List (Clause ν ω), Clause.columnsAll (Clause.mapAll f g cs) = (Clause.columnsAll cs).map f
  | [] => rfl
  | (_, p) :: rest => by
    simp [Clause.mapAll, Clause.columnsAll, Predicate.columns_map f g p,
      Clause.columnsAll_mapAll f g rest]

end

mutual

/-- The values of a replaced predicate are its replaced values, in the same places. -/
theorem Predicate.values_map (f : ν → ν') (g : ω → ω') :
    ∀ p : Predicate ν ω, (p.map f g).values = p.values.map g
  | .basic .. => rfl
  | .function _ _ value _ => by cases value <;> rfl
  | .between .. => rfl
  | .membership .. => rfl
  | .nested clauses => Clause.valuesAll_mapAll f g clauses
  | .unsupported .. => rfl

/-- The same for a list of clauses. -/
theorem Clause.valuesAll_mapAll (f : ν → ν') (g : ω → ω') :
    ∀ cs : List (Clause ν ω), Clause.valuesAll (Clause.mapAll f g cs) = (Clause.valuesAll cs).map g
  | [] => rfl
  | (_, p) :: rest => by
    simp [Clause.mapAll, Clause.valuesAll, Predicate.values_map f g p,
      Clause.valuesAll_mapAll f g rest]

end

/-! ## Properties of what is referred to -/

/-- What is referred to has a property, columns the one and values the other. -/
structure Refers (P : ν → Prop) (Q : ω → Prop) (cs : List ν) (vs : List ω) : Prop where
  column : ∀ c ∈ cs, P c
  value : ∀ v ∈ vs, Q v

namespace Refers

variable {P P' : ν → Prop} {Q Q' : ω → Prop} {cs ds : List ν} {vs ws : List ω}

/-- Where nothing is referred to, nothing has to have a property. -/
theorem nil : Refers P Q [] [] := ⟨nofun, nofun⟩

/-- What is referred to on either side has the property, so all together has. -/
theorem append (h : Refers P Q cs vs) (later : Refers P Q ds ws) :
    Refers P Q (cs ++ ds) (vs ++ ws) :=
  ⟨fun c hc => (List.mem_append.1 hc).elim (h.column c) (later.column c),
    fun v hv => (List.mem_append.1 hv).elim (h.value v) (later.value v)⟩

/-- What comes first. -/
theorem left (h : Refers P Q (cs ++ ds) (vs ++ ws)) : Refers P Q cs vs :=
  ⟨fun c hc => h.column c (List.mem_append_left ds hc),
    fun v hv => h.value v (List.mem_append_left ws hv)⟩

/-- What comes after it. -/
theorem right (h : Refers P Q (cs ++ ds) (vs ++ ws)) : Refers P Q ds ws :=
  ⟨fun c hc => h.column c (List.mem_append_right cs hc),
    fun v hv => h.value v (List.mem_append_right vs hv)⟩

/-- A weaker property holds of the same references. -/
theorem imp (h : Refers P Q cs vs) (hP : ∀ c, P c → P' c) (hQ : ∀ v, Q v → Q' v) :
    Refers P' Q' cs vs :=
  ⟨fun c hc => hP c (h.column c hc), fun v hv => hQ v (h.value v hv)⟩

end Refers

mutual

/-- Only the references of a predicate are replaced, so two replacements that agree on these give
the same predicate, whatever they do elsewhere. This is what allows a key to be looked up in a later
table. -/
theorem Predicate.map_congr {f f' : ν → ν'} {g g' : ω → ω'} : ∀ p : Predicate ν ω,
    Refers (fun c => f c = f' c) (fun v => g v = g' v) p.columns p.values → p.map f g = p.map f' g'
  | .basic column _ value, h => by
    rw [Predicate.map, Predicate.map, h.column column (.head _), h.value value (.head _)]
  | .function _ column none _, h => by
    rw [Predicate.map, Predicate.map, h.column column (.head _)]
    rfl
  | .function _ column (some value) _, h => by
    rw [Predicate.map, Predicate.map, h.column column (.head _), Option.map_some, Option.map_some,
      h.value value (.head _)]
  | .between column low high _, h => by
    rw [Predicate.map, Predicate.map, h.column column (.head _), h.value low (.head _),
      h.value high (.tail _ (.head _))]
  | .membership column values _, h => by
    -- the members are values of the predicate, so the two maps agree on them one by one
    have hvalues : values.map g = values.map g' := List.map_congr_left h.value
    rw [Predicate.map, Predicate.map, h.column column (.head _), hvalues]
  | .nested clauses, h => by rw [Predicate.map, Predicate.map, Clause.mapAll_congr clauses h]
  | .unsupported .., _ => rfl

/-- Replacements that agree on what occurs give the same clauses. -/
theorem Clause.mapAll_congr {f f' : ν → ν'} {g g' : ω → ω'} : ∀ cs : List (Clause ν ω),
    Refers (fun c => f c = f' c) (fun v => g v = g' v) (Clause.columnsAll cs) (Clause.valuesAll cs) →
      Clause.mapAll f g cs = Clause.mapAll f' g' cs
  | [], _ => rfl
  | (_, p) :: rest, h => by
    rw [Clause.mapAll, Clause.mapAll, p.map_congr h.left, Clause.mapAll_congr rest h.right]

end

/-! ## Faults

A clause has a fault if it has no expression, however the keys are bound. -/

mutual

/-- The tokens without an expression and what is wrong with them, from left to right. -/
def Predicate.faults : Predicate ν ω → List (String × Unsupported)
  | .basic _ _ _ => []
  | .function _ _ (some _) _ => []
  | .function f _ none _ => if f.arity = 0 then [] else [(f.text, .functionWithoutValue)]
  | .between _ _ _ _ => []
  | .membership _ values _ => if values.isEmpty then [("in", .noMembers)] else []
  | .nested clauses => Clause.faultsAll clauses
  | .unsupported token reason => [(token, reason)]

def Clause.faultsAll : List (Clause ν ω) → List (String × Unsupported)
  | [] => []
  | (_, p) :: rest => p.faults ++ Clause.faultsAll rest

end

mutual

/-- Whether a predicate has an expression is told by its shape alone: replacing references neither
mends it nor breaks it. -/
theorem Predicate.faults_map (f : ν → ν') (g : ω → ω') :
    ∀ p : Predicate ν ω, (p.map f g).faults = p.faults
  | .basic .. => rfl
  | .function _ _ value _ => by cases value <;> rfl
  | .between .. => rfl
  | .membership _ values _ => by cases values <;> rfl
  | .nested clauses => Clause.faultsAll_mapAll f g clauses
  | .unsupported .. => rfl

/-- The same for a list of clauses. -/
theorem Clause.faultsAll_mapAll (f : ν → ν') (g : ω → ω') :
    ∀ cs : List (Clause ν ω), Clause.faultsAll (Clause.mapAll f g cs) = Clause.faultsAll cs
  | [] => rfl
  | (_, p) :: rest => by
    simp [Clause.mapAll, Clause.faultsAll, Predicate.faults_map f g p,
      Clause.faultsAll_mapAll f g rest]

end

/-- Faults are listed clause by clause, so the first fault of a request is the first of its first
faulty clause. -/
@[simp] theorem Clause.faultsAll_append (as bs : List (Clause ν ω)) :
    Clause.faultsAll (as ++ bs) = Clause.faultsAll as ++ Clause.faultsAll bs := by
  induction as with
  | nil => rfl
  | cons c rest ih => simp [Clause.faultsAll, ih]

/-- A group has the faults of its clauses. -/
@[simp] theorem Call.faultsAll_groupClauses (connector : Connector)
    (clauses : List (Clause ν ω)) :
    Clause.faultsAll (groupClauses connector clauses) = Clause.faultsAll clauses := by
  cases clauses <;> simp [groupClauses, Clause.faultsAll, Predicate.faults]

end

end TableQuery
