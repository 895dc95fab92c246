import TableQuery.Proofs.Steps

/-!
# Spellings of a comparison

A column is compared in several spellings. A value alone stands for an equality, and so does a token
alone, if it is neither an operator nor the name of a function; a size can be compared by a call of
its own or by the name of the function. Which token is an operator or a function is said here without
the tables in which tokens are looked up: operators are written exactly, names of functions in
letters of either case.

* **`Comparison.ofToken?_eq_some`**, **`ConditionFunction.ofToken?_eq_some`** — what the tables find.
* **`alone?_eq_some_iff`**, **`applied_eq_iff`** — the clause of a token alone and of a token with a
  value, by what the token is.
* **`clauses_explicit`** — a call adds the same clause and declares the same if its comparisons are
  spelled out, at any depth.
* **`spellings_agree`** — which spellings agree, and what becomes of all others.
-/

namespace TableQuery

/-- Equal but for the case of ASCII letters. -/
def SameLetters (s t : String) : Prop := s.toList.map Char.toLower = t.toList.map Char.toLower

instance (s t : String) : Decidable (SameLetters s t) := inferInstanceAs (Decidable (_ = _))

/-! ## What a token is -/

/-- The table of operators finds exactly the tokens that are written like one. -/
theorem Comparison.ofToken?_eq_some {token : String} {c : Comparison} :
    ofToken? token = some c ↔ token = c.text := by
  constructor
  · intro h
    rw [ofToken?] at h
    have hfound := List.find?_some h
    exact (beq_iff_eq.1 hfound).symm
  · rintro rfl
    -- no operator is written like one before it in the table
    cases c <;> rfl

/-- Names of functions have no upper-case letters. -/
theorem ConditionFunction.map_toLower_text (f : ConditionFunction) :
    f.text.toList.map Char.toLower = f.text.toList := by
  cases f <;> decide

/-- The table of functions finds the names of functions, in letters of either case. -/
theorem ConditionFunction.ofToken?_eq_some {token : String} {f : ConditionFunction} :
    ofToken? token = some f ↔ SameLetters token f.text := by
  unfold SameLetters ofToken?
  rw [map_toLower_text]
  constructor
  · intro h
    have hfound := List.find?_some h
    exact (beq_iff_eq.1 hfound).symm
  · intro h
    rw [h]
    cases f <;> rfl

namespace Operand

/-- The token is neither an operator nor the name of a function. -/
structure IsPlain (token : String) : Prop where
  operator : ∀ c : Comparison, token ≠ c.text
  function : ∀ f : ConditionFunction, ¬SameLetters token f.text

/-- No operator is the name of a function. -/
theorem not_sameLetters_of_comparison (c : Comparison) (f : ConditionFunction) :
    ¬SameLetters c.text f.text := by
  cases c <;> cases f <;> decide

/-- A token that is not found among the operators is none of them. -/
theorem comparison_none_iff {token : String} :
    Comparison.ofToken? token = none ↔ ∀ c : Comparison, token ≠ c.text := by
  rw [Option.eq_none_iff_forall_ne_some]
  exact forall_congr' fun c => not_congr Comparison.ofToken?_eq_some

/-- A token that is not found among the functions is the name of none. -/
theorem function_none_iff {token : String} :
    ConditionFunction.ofToken? token = none
      ↔ ∀ f : ConditionFunction, ¬SameLetters token f.text := by
  rw [Option.eq_none_iff_forall_ne_some]
  exact forall_congr' fun f => not_congr ConditionFunction.ofToken?_eq_some

/-- **Every token** is an operator, the name of a function, or plain. -/
theorem token_cases (token : String) :
    (∃ c : Comparison, token = c.text)
      ∨ (∃ f : ConditionFunction, SameLetters token f.text ∧ ∀ c : Comparison, token ≠ c.text)
      ∨ IsPlain token := by
  by_cases hc : ∃ c : Comparison, token = c.text
  · exact .inl hc
  · rw [not_exists] at hc
    by_cases hf : ∃ f : ConditionFunction, SameLetters token f.text
    · obtain ⟨f, hf⟩ := hf
      exact .inr (.inl ⟨f, hf, hc⟩)
    · exact .inr (.inr ⟨hc, not_exists.1 hf⟩)

/-- The test for known tokens fails exactly on the plain ones. -/
theorem isKnown_iff {token : String} : isKnown token = false ↔ IsPlain token := by
  unfold isKnown
  rw [Bool.or_eq_false_iff, Option.isSome_eq_false_iff, Option.isSome_eq_false_iff,
    Option.isNone_iff_eq_none, Option.isNone_iff_eq_none, comparison_none_iff, function_none_iff]
  exact ⟨fun h => ⟨h.1, h.2⟩, fun h => ⟨h.operator, h.function⟩⟩

/-! ## What becomes of a token -/

section

variable {ν ω : Type}

/-- The clause of a token that stands alone and is not plain. -/
inductive Alone (column : ν) (token : String) : Predicate ν ω → Prop where
  | operator {c : Comparison} (h : token = c.text) :
    Alone column token (.unsupported token .comparisonWithoutValue)
  | nullary {f : ConditionFunction} (h : SameLetters token f.text) (arity : f.arity = 0) :
    Alone column token (.function f column none .equal)
  | unary {f : ConditionFunction} (h : SameLetters token f.text) (arity : f.arity = 1) :
    Alone column token (.unsupported token .functionWithoutValue)

/-- The clause of a token with a value. -/
inductive Applied (column : ν) (value : ω) (token : String) : Predicate ν ω → Prop where
  | operator {c : Comparison} (h : token = c.text) :
    Applied column value token (.basic column c value)
  | unary {f : ConditionFunction} (h : SameLetters token f.text) (arity : f.arity = 1) :
    Applied column value token (.function f column (some value) .equal)
  | nullary {f : ConditionFunction} (h : SameLetters token f.text) (arity : f.arity = 0) :
    Applied column value token (.unsupported token .functionWithValue)
  | plain (h : IsPlain token) :
    Applied column value token (.unsupported token .unknownOperator)

/-- The name of a function alone is a clause if it needs no value, and an unsupported one otherwise.
-/
theorem alone?_of_function (column : ν) {token : String} {f : ConditionFunction}
    (hc : ∀ c : Comparison, token ≠ c.text) (hf : SameLetters token f.text) :
    (alone? column token : Option (Predicate ν ω))
      = some (if f.arity = 0 then .function f column none .equal
        else .unsupported token .functionWithoutValue) := by
  unfold alone?
  rw [comparison_none_iff.2 hc, ConditionFunction.ofToken?_eq_some.2 hf]
  rfl

/-- The name of a function with a value is a clause if it takes one, and an unsupported one
otherwise. -/
theorem applied_of_function (column : ν) (value : ω) {token : String} {f : ConditionFunction}
    (hc : ∀ c : Comparison, token ≠ c.text) (hf : SameLetters token f.text) :
    applied column token value
      = if f.arity = 0 then .unsupported token .functionWithValue
        else .function f column (some value) .equal := by
  unfold applied
  rw [comparison_none_iff.2 hc, ConditionFunction.ofToken?_eq_some.2 hf]

/-- The name of a function is no operator. -/
theorem ne_comparison_of_function {token : String} {f : ConditionFunction}
    (hf : SameLetters token f.text) (c : Comparison) : token ≠ c.text := by
  rintro rfl
  exact not_sameLetters_of_comparison c f hf

/-- **A token alone** is a function that takes no value, or cannot be written. It is an equality only
if it is plain. -/
theorem alone?_eq_some_iff {column : ν} {token : String} {p : Predicate ν ω} :
    alone? column token = some p ↔ Alone column token p := by
  constructor
  · intro h
    obtain ⟨c, hc⟩ | ⟨f, hf, hc⟩ | plain := token_cases token
    · have hfound := Comparison.ofToken?_eq_some.2 hc
      unfold alone? at h
      rw [hfound] at h
      rw [← Option.some.inj h]
      exact .operator hc
    · rw [alone?_of_function column hc hf] at h
      obtain harity | harity := f.arity_eq_zero_or_one
      · rw [if_pos harity] at h
        rw [← Option.some.inj h]
        exact .nullary hf harity
      · rw [if_neg (by omega)] at h
        rw [← Option.some.inj h]
        exact .unary hf harity
    · -- a plain token makes no clause of its own
      rw [alone?_eq_none (isKnown_iff.2 plain)] at h
      cases h
  · intro h
    cases h with
    | operator h =>
      unfold alone?
      rw [Comparison.ofToken?_eq_some.2 h]
    | nullary h arity =>
      rw [alone?_of_function column (ne_comparison_of_function h) h, if_pos arity]
    | unary h arity =>
      rw [alone?_of_function column (ne_comparison_of_function h) h, if_neg (by omega)]

/-- **A token with a value** is a comparison or a function of one value, or cannot be written. -/
theorem applied_eq_iff {column : ν} {value : ω} {token : String} {p : Predicate ν ω} :
    applied column token value = p ↔ Applied column value token p := by
  constructor
  · rintro rfl
    -- the tables are looked up in this order, operators before functions
    obtain ⟨c, hc⟩ | ⟨f, hf, hc⟩ | plain := token_cases token
    · unfold applied
      rw [Comparison.ofToken?_eq_some.2 hc]
      exact .operator hc
    · rw [applied_of_function column value hc hf]
      obtain harity | harity := f.arity_eq_zero_or_one
      · rw [if_pos harity]
        exact .nullary hf harity
      · rw [if_neg (by omega)]
        exact .unary hf harity
    · unfold applied
      rw [comparison_none_iff.2 plain.operator, function_none_iff.2 plain.function]
      exact .plain plain
  · intro h
    cases h with
    | operator h =>
      unfold applied
      rw [Comparison.ofToken?_eq_some.2 h]
    | unary h arity =>
      rw [applied_of_function column value (ne_comparison_of_function h) h, if_neg (by omega)]
    | nullary h arity =>
      rw [applied_of_function column value (ne_comparison_of_function h) h, if_pos arity]
    | plain h =>
      unfold applied
      rw [comparison_none_iff.2 h.operator, function_none_iff.2 h.function]

end

/-! ## Spellings of one predicate -/

section

variable (t : Placeholders) (column : String)

/-- A value alone is compared for equality. -/
theorem predicate_equals (value : Value) :
    (Operand.equals value).predicate t column = (operator "=" value).predicate t column := rfl

/-- A plain token alone is the string of its text, compared for equality. -/
theorem predicate_plain {token : String} (plain : IsPlain token) :
    (bare token).predicate t column = (operator "=" (.string token)).predicate t column := by
  rw [← predicate_equals]
  unfold predicate
  simp only [alone?_eq_none (isKnown_iff.2 plain)]

/-- The name of the size function with a value is what a call about the size makes, whatever the
case of its letters. -/
theorem predicate_size {token : String} (h : SameLetters token "size") (value : Value) :
    (operator token value).predicate t column = Call.sizePredicate t column "=" value := by
  have happlied := @applied_of_function String String (t.nameKey column).1
    ((t.nameKey column).2.valueKey value).1 token .size
    (ne_comparison_of_function (f := .size) h) h
  unfold predicate
  simp only [happlied]
  rfl

/-- A token that is not plain, alone, is about the column only: nothing else is mentioned, and what
is recorded follows from what the token is. -/
theorem predicate_known {token : String} (known : ¬IsPlain token) :
    ∃ p : KeyedPredicate, Alone (t.nameOf column) token p
      ∧ (bare token).predicate t column = (p, t.after [.column column]) := by
  -- a known token is not looked at as a value
  rw [← isKnown_iff, Bool.not_eq_false] at known
  obtain ⟨p, hp⟩ := alone?_eq_some (ω := String) known (t.nameKey column).1
  refine ⟨p, alone?_eq_some_iff.1 hp, ?_⟩
  unfold predicate
  simp only [hp]
  rfl

/-- A token with a value mentions the column and then the value, also if what is recorded is
unsupported. -/
theorem predicate_applied (token : String) (value : Value) :
    ∃ p : KeyedPredicate,
      Applied (t.nameOf column) ((t.after [.column column]).valueOf value) token p
        ∧ (operator token value).predicate t column
          = (p, t.after [.column column, .value value]) :=
  ⟨_, applied_eq_iff.1 rfl, rfl⟩

end

end Operand

/-! ## Calls that are spelled out -/

namespace Call

open Operand (isKnown)

/-- A comparison by an operator, or of the size by a call of its own. -/
def spelledOut (connector : Connector) (column : String) : Operand → Call
  | .equals value => .compare connector column (.operator "=" value)
  | .bare token =>
    if isKnown token then .compare connector column (.bare token)
    else .compare connector column (.operator "=" (.string token))
  | .operator token value =>
    if SameLetters token "size" then .size connector column "=" value
    else .compare connector column (.operator token value)

mutual

def explicit : Call → Call
  | .compare connector column operand => spelledOut connector column operand
  | .group connector calls => .group connector (explicitAll calls)
  | call => call

def explicitAll : List Call → List Call
  | [] => []
  | call :: rest => call.explicit :: explicitAll rest

end

mutual

/-- No comparison has a shorter spelling left, at any depth. -/
def isExplicit : Call → Bool
  | .compare _ _ (.equals _) => false
  | .compare _ _ (.bare token) => isKnown token
  | .compare _ _ (.operator token _) => !decide (SameLetters token "size")
  | .group _ calls => areExplicit calls
  | _ => true

def areExplicit : List Call → Bool
  | [] => true
  | call :: rest => call.isExplicit && areExplicit rest

end

/-- What is spelled out has no shorter spelling left. -/
theorem isExplicit_spelledOut (connector : Connector) (column : String) (operand : Operand) :
    (spelledOut connector column operand).isExplicit = true := by
  cases operand with
  | equals value => rfl
  | bare token =>
    rw [spelledOut]
    split
    · assumption
    · rfl
  | operator token value =>
    rw [spelledOut]
    split
    · rfl
    · rename_i h
      simp [isExplicit, h]

mutual

/-- Spelling out a call leaves no shorter spelling in it, at any depth. -/
theorem isExplicit_explicit : ∀ call : Call, call.explicit.isExplicit = true
  | .compare connector column operand => isExplicit_spelledOut connector column operand
  | .size .. => rfl
  | .membership .. => rfl
  | .between .. => rfl
  | .group _ calls => areExplicit_explicitAll calls
  | .graft .. => rfl

/-- Spelling out several calls leaves no shorter spelling in any of them. -/
theorem areExplicit_explicitAll : ∀ calls : List Call, areExplicit (explicitAll calls) = true
  | [] => rfl
  | call :: rest => by
    rw [explicitAll, areExplicit, isExplicit_explicit call, areExplicit_explicitAll rest]
    rfl

end

/-- Two comparisons that make the same predicate add the same clause and leave the same table. -/
theorem clauses_compare (t : Placeholders) {connector : Connector} {column column' : String}
    {operand operand' : Operand} (h : operand.predicate t column = operand'.predicate t column') :
    (compare connector column operand).clauses t
      = (compare connector column' operand').clauses t := by
  rw [clauses, clauses, h]

/-- A comparison by the name of the size function adds the clause of the call about the size. -/
theorem clauses_size (t : Placeholders) (connector : Connector) (column : String) {token : String}
    (h : SameLetters token "size") (value : Value) :
    (compare connector column (.operator token value)).clauses t
      = (size connector column "=" value).clauses t := by
  rw [clauses, clauses, Operand.predicate_size t column h]

/-- One comparison adds the same clause and leaves the same table if it is spelled out. -/
theorem clauses_spelledOut (t : Placeholders) (connector : Connector) (column : String)
    (operand : Operand) :
    (spelledOut connector column operand).clauses t
      = (compare connector column operand).clauses t := by
  cases operand with
  | equals value => rfl
  | bare token =>
    rw [spelledOut]
    split
    · rfl
    · rename_i h
      rw [Bool.not_eq_true, Operand.isKnown_iff] at h
      -- a plain token is spelled out as the string that it stands for
      exact clauses_compare t (Operand.predicate_plain t column h).symm
  | operator token value =>
    rw [spelledOut]
    split
    · rename_i h
      exact (clauses_size t connector column h value).symm
    · rfl

mutual

/-- **A call that is spelled out** adds the same clauses and declares the same, whatever has been
declared before. -/
theorem clauses_explicit (t : Placeholders) : ∀ call : Call, call.explicit.clauses t = call.clauses t
  | .compare connector column operand => clauses_spelledOut t connector column operand
  | .size .. => rfl
  | .membership .. => rfl
  | .between .. => rfl
  | .group connector calls => by
    rw [explicit, clauses, clauses, clausesOfAll_explicit t calls]
  | .graft .. => rfl

/-- Several calls add the same clauses if each is spelled out, since each leaves the same table to
the next one. -/
theorem clausesOfAll_explicit (t : Placeholders) :
    ∀ calls : List Call, clausesOfAll t (explicitAll calls) = clausesOfAll t calls
  | [] => rfl
  | call :: rest => by
    simp only [explicitAll, clausesOfAll, clauses_explicit t call,
      clausesOfAll_explicit (call.clauses t).2 rest]

end

end Call

/-- The same step, with the comparisons of its calls spelled out at every depth. The name of a
shorthand and its arguments stay as they are. -/
def Step.explicit : Step → Step
  | .add slot calls => .add slot (Call.explicitAll calls)
  | s => s

namespace Conditions

/-- Between two states of the conditions one clause has been added to a slot: it stands behind the
clauses that were there, every other slot is as it was, and the table has been used for what the
clause mentions. -/
structure AddsClause (c c' : Conditions) (slot : Slot) (clause : KeyedClause)
    (mentioned : List Mention) : Prop where
  last : c'.clauses slot = c.clauses slot ++ [clause]
  others : ∀ other, other ≠ slot → c'.clauses other = c.clauses other
  placeholders : c'.placeholders = c.placeholders.after mentioned

/-- What is added to a slot depends on the clauses of the calls and on the table that they leave. -/
theorem add_congr (c : Conditions) (slot : Slot) {calls calls' : List Call}
    (h : Call.clausesOfAll c.placeholders calls = Call.clausesOfAll c.placeholders calls') :
    c.add slot calls = c.add slot calls' := by
  rw [add, add, h]

/-- A single call may be replaced by one that adds the same clauses and leaves the same table. -/
theorem add_single (c : Conditions) (slot : Slot) {call call' : Call}
    (h : call.clauses c.placeholders = call'.clauses c.placeholders) :
    c.add slot [call] = c.add slot [call'] :=
  c.add_congr slot (by rw [Call.clausesOfAll, Call.clausesOfAll, h])

/-- A comparison adds its predicate, and nothing else. -/
theorem add_compare (c : Conditions) (slot : Slot) (connector : Connector) {column : String}
    {operand : Operand} {p : KeyedPredicate} {mentioned : List Mention}
    (h : operand.predicate c.placeholders column = (p, c.placeholders.after mentioned)) :
    c.AddsClause (c.add slot [.compare connector column operand]) slot (connector, p) mentioned := by
  have hcall : Call.clausesOfAll c.placeholders [.compare connector column operand]
      = ([(connector, p)], c.placeholders.after mentioned) := by
    rw [Call.clausesOfAll, Call.clauses, h]
    rfl
  refine ⟨?_, fun other hother => ?_, ?_⟩
  · rw [clauses_add, hcall, if_pos rfl]
  · rw [clauses_add, if_neg hother.symm, List.append_nil]
  · rw [add, placeholders_append, hcall]

end Conditions

/-- A request is the same whether the comparisons of its steps are spelled out or not, groups
included. -/
theorem Request.steps_explicit (r : Request) (steps : List Step) :
    r.steps (steps.map Step.explicit) = r.steps steps := by
  induction steps generalizing r with
  | nil => rfl
  | cons s rest ih =>
    have hstep : r.step s.explicit = r.step s := by
      cases s with
      | add slot calls =>
        show Except.ok (r.add slot (Call.explicitAll calls)) = Except.ok (r.add slot calls)
        unfold Request.add
        rw [r.conditions.add_congr slot (Call.clausesOfAll_explicit _ calls)]
      | set setting => rfl
      | addNamed name arguments => rfl
    show (r.step s.explicit >>= (·.steps (rest.map Step.explicit))) = (r.step s >>= (·.steps rest))
    rw [hstep]
    exact congrArg (r.step s >>= ·) (funext ih)

namespace Operand

/-- **Spellings of a comparison agree**, whatever clauses there are and whatever has been declared. A
value alone is an equality, and so is a plain token alone; the name of the size with a value is the
call for the size. A token alone that is not plain never is an equality. With a value every token is
read by what it is, and is reported as it was written if it cannot be read. So comparisons can be
spelled out everywhere, at any depth, in a run of steps. -/
theorem spellings_agree (c : Conditions) (slot : Slot) (connector : Connector) (column : String) :
    (∀ value, c.add slot [.compare connector column (.equals value)]
        = c.add slot [.compare connector column (.operator "=" value)])
      ∧ (∀ token, IsPlain token →
          c.add slot [.compare connector column (.bare token)]
            = c.add slot [.compare connector column (.operator "=" (.string token))])
      ∧ (∀ token value, SameLetters token "size" →
          c.add slot [.compare connector column (.operator token value)]
            = c.add slot [.size connector column "=" value])
      ∧ (∀ token, ¬IsPlain token →
          ∃ p : KeyedPredicate, Alone (c.placeholders.nameOf column) token p
            ∧ (∀ key operator value, p ≠ .basic key operator value)
            ∧ c.AddsClause (c.add slot [.compare connector column (.bare token)]) slot
              (connector, p) [.column column])
      ∧ (∀ token value,
          ∃ p : KeyedPredicate, Applied (c.placeholders.nameOf column)
              ((c.placeholders.after [.column column]).valueOf value) token p
            ∧ c.AddsClause (c.add slot [.compare connector column (.operator token value)]) slot
              (connector, p) [.column column, .value value])
      ∧ (∀ calls, Call.areExplicit (Call.explicitAll calls) = true)
      ∧ ∀ (r : Request) (steps : List Step), r.steps (steps.map Step.explicit) = r.steps steps := by
  refine ⟨fun value => c.add_single slot rfl, fun token plain => ?_, fun token value h => ?_,
    fun token known => ?_, fun token value => ?_, Call.areExplicit_explicitAll,
    Request.steps_explicit⟩
  · exact c.add_single slot (Call.clauses_compare _ (predicate_plain _ column plain))
  · exact c.add_single slot (Call.clauses_size _ connector column h value)
  · obtain ⟨p, alone, hp⟩ := predicate_known c.placeholders column known
    refine ⟨p, alone, fun key operator value => ?_, c.add_compare slot connector hp⟩
    cases alone <;> exact nofun
  · obtain ⟨p, applied, hp⟩ := predicate_applied c.placeholders column token value
    exact ⟨p, applied, c.add_compare slot connector hp⟩

/-- Conditions with one clause, about a column that is compared again. -/
def viewed : Conditions :=
  Conditions.add { filter := [] } .filter [.compare .and "Views" (.operator "<" (.number "3"))]

/-- A plain token, the name of a function in other letters, one that needs no value, and an operator
that is none: the clauses of the last two are written out, behind the one that was there. -/
theorem spellings_agree_views :
    IsPlain "sizes" ∧ SameLetters "SiZe" "size" ∧ ¬IsPlain "Attribute_Exists"
      ∧ viewed.add .filter [.compare .or "Views" (.bare "sizes")]
        = viewed.add .filter [.compare .or "Views" (.operator "=" (.string "sizes"))]
      ∧ viewed.add .filter [.compare .or "Views" (.operator "SiZe" (.number "3"))]
        = viewed.add .filter [.size .or "Views" "=" (.number "3")]
      ∧ (viewed.add .filter [.compare .or "Views" (.bare "Attribute_Exists")]).clauses .filter
        = [(.and, .basic "#1" .less ":1"), (.or, .function .attributeExists "#1" none .equal)]
      ∧ (viewed.add .condition [.compare .or "Views" (.operator "almost" (.string "3"))]).clauses
          .condition
        = [(.or, .unsupported "almost" .unknownOperator)] := by
  have plain : IsPlain "sizes" :=
    ⟨fun c => by cases c <;> decide, fun f => by cases f <;> decide⟩
  have letters : SameLetters "SiZe" "size" := by decide
  have known : ¬IsPlain "Attribute_Exists" := fun h => h.function .attributeExists (by decide)
  obtain ⟨-, hplain, hsize, hknown, -⟩ := spellings_agree viewed .filter .or "Views"
  obtain ⟨-, -, -, -, happlied, -⟩ := spellings_agree viewed .condition .or "Views"
  obtain ⟨p, alone, -, hp⟩ := hknown "Attribute_Exists" known
  -- the token is the name of one function only, so its clause is this one
  obtain rfl : p = .function .attributeExists "#1" none .equal :=
    Option.some.inj ((alone?_eq_some_iff.2 alone).symm.trans rfl)
  obtain ⟨q, applied, hq⟩ := happlied "almost" (.string "3")
  obtain rfl : q = .unsupported "almost" .unknownOperator :=
    (applied_eq_iff.2 applied).symm.trans rfl
  exact ⟨plain, letters, known, hplain _ plain, hsize _ _ letters, hp.last, hq.last⟩

end Operand

end TableQuery
