import TableQuery.Proofs.Clauses
import TableQuery.Proofs.Mentions

/-!
# Direct clauses

A call on a condition says something about a column and some values. The clauses that a request
keeps hold keys in their place. Here the same calls are read without a placeholder table, as clauses
over the columns and values themselves (`Call.direct`), and both readings are compared.

* **`clauses_after`** — the table after a call is the table after what the call mentions.
* **`clauses_keyed`** — the clauses that a call adds are its direct clauses, every column and value
  replaced by the key that it has in *any* later table of the same request.
* **`account_direct`** — direct clauses refer to nothing that is not mentioned, and to all that is
  mentioned if every clause has an expression.
-/

namespace TableQuery

open Mention (columnsOf valuesOf InRange)
open Placeholders (ofMentions after_append)

/-! ## Reading calls directly -/

namespace Operand

/-- The token is an operator or the name of a function. -/
def isKnown (token : String) : Bool :=
  (Comparison.ofToken? token).isSome || (ConditionFunction.ofToken? token).isSome

/-- What an operand says of a column. -/
def direct (column : String) : Operand → Predicate String Value
  | .equals value => .basic column .equal value
  | .bare token => (alone? column token).getD (.basic column .equal (.string token))
  | .operator token value => applied column token value

def mentions : Operand → List Mention
  | .equals value => [.value value]
  | .bare token => if isKnown token then [] else [.value (.string token)]
  | .operator _ value => [.value value]

end Operand

namespace Call

def sizeDirect (column operator : String) (value : Value) : Predicate String Value :=
  match Comparison.ofToken? operator with
  | some c => .function .size column (some value) c
  | none => .unsupported operator .sizeWithoutComparison

mutual

/-- The clauses of a call over columns and values themselves. -/
def direct : Call → List (Clause String Value)
  | .compare connector column operand => [(connector, operand.direct column)]
  | .size connector column operator value => [(connector, sizeDirect column operator value)]
  | .membership connector column values negated =>
    [(connector, .membership column values negated)]
  | .between connector column low high negated => [(connector, .between column low high negated)]
  | .group connector calls => groupClauses connector (directAll calls)
  -- what the keys of a graft stand for is known to its own table only
  | .graft _ _ => []

def directAll : List Call → List (Clause String Value)
  | [] => []
  | call :: rest => call.direct ++ directAll rest

end

mutual

/-- What a call uses the placeholder table for, in the order in which it does. -/
def mentions : Call → List Mention
  | .compare _ column operand => .column column :: operand.mentions
  | .size _ column _ value => [.column column, .value value]
  | .membership _ column values _ => .column column :: values.map .value
  | .between _ column low high _ => [.column column, .value low, .value high]
  | .group _ calls => mentionsAll calls
  | .graft _ _ => []

def mentionsAll : List Call → List Mention
  | [] => []
  | call :: rest => call.mentions ++ mentionsAll rest

end

mutual

/-- Every clause comes from a call, at any depth; none was built over another table. -/
def isNative : Call → Bool
  | .compare .. => true
  | .size .. => true
  | .membership .. => true
  | .between .. => true
  | .group _ calls => areNative calls
  | .graft _ _ => false

def areNative : List Call → Bool
  | [] => true
  | call :: rest => call.isNative && areNative rest

end

end Call

/-! ## Tokens -/

namespace Operand

variable {ν ω ν' ω' : Type}

/-- A token with a value is the same predicate whatever the column and the value are. -/
theorem applied_map (f : ν → ν') (g : ω → ω') (column : ν) (token : String) (value : ω) :
    (applied column token value).map f g = applied (f column) token (g value) := by
  unfold applied
  split
  · rfl
  · split
    · split <;> rfl
    · rfl

/-- A token alone is the same predicate whatever the column is. -/
theorem alone?_map (f : ν → ν') (g : ω → ω') (column : ν) (token : String) :
    (alone? column token).map (Predicate.map f g) = alone? (f column) token := by
  unfold alone?
  split
  · rfl
  · cases ConditionFunction.ofToken? token with
    | none => rfl
    | some fn => by_cases h : fn.arity = 0 <;> simp [h, Predicate.map]

/-- A token alone makes a predicate exactly if it is known. -/
theorem isSome_alone? (column : ν) (token : String) :
    (alone? column token : Option (Predicate ν ω)).isSome = isKnown token := by
  unfold alone? isKnown
  split
  · rename_i h
    simp [h]
  · rename_i h
    simp [h]

/-- A token that is not known makes no predicate of its own. -/
theorem alone?_eq_none {token : String} (h : isKnown token = false) (column : ν) :
    (alone? column token : Option (Predicate ν ω)) = none := by
  rw [← isSome_alone? (ω := ω) column] at h
  simpa using h

/-- A token that is known makes a predicate, if only an unsupported one. -/
theorem alone?_eq_some {token : String} (h : isKnown token = true) (column : ν) :
    ∃ p : Predicate ν ω, alone? column token = some p := by
  rw [← isSome_alone? (ω := ω) column] at h
  exact Option.isSome_iff_exists.1 h

end Operand

/-! ## The table after a call -/

/-- Behind its column, an operand uses the table for the values that it mentions. -/
theorem Operand.predicate_after (t : Placeholders) (column : String) (operand : Operand) :
    (operand.predicate t column).2 = (t.nameKey column).2.after operand.mentions := by
  cases operand with
  | equals value => rfl
  | bare token =>
    cases h : isKnown token with
    | false => simp [predicate, mentions, h, alone?_eq_none h, equality, Placeholders.mention]
    | true =>
      -- a function without a value, or a fault: only the column is mentioned
      obtain ⟨p, hp⟩ := alone?_eq_some (ω := String) h (t.nameKey column).1
      simp [predicate, mentions, h, hp]
  | operator token value => rfl

namespace Call

/-- A comparison of a size uses its column and its value, also if its token is no operator. -/
theorem sizePredicate_after (t : Placeholders) (column operator : String) (value : Value) :
    (sizePredicate t column operator value).2 = t.after [.column column, .value value] := by
  unfold sizePredicate
  cases Comparison.ofToken? operator <;> rfl

/-- A membership uses its column and then its values from left to right. -/
theorem membershipPredicate_after (t : Placeholders) (column : String) (values : List Value)
    (negated : Bool) :
    (membershipPredicate t column values negated).2
      = t.after (.column column :: values.map .value) :=
  Placeholders.valueKeys_after _ values

mutual

/-- **The table after a call** is the table after what the call mentions. -/
theorem clauses_after (t : Placeholders) : ∀ call : Call, (call.clauses t).2 = t.after call.mentions
  | .compare _ column operand => operand.predicate_after t column
  | .size _ column operator value => sizePredicate_after t column operator value
  | .membership _ column values negated => membershipPredicate_after t column values negated
  | .between .. => rfl
  | .group _ calls => clausesOfAll_after t calls
  | .graft .. => rfl

/-- The table after several calls is the table after all that they mention. -/
theorem clausesOfAll_after (t : Placeholders) :
    ∀ calls : List Call, (clausesOfAll t calls).2 = t.after (mentionsAll calls)
  | [] => rfl
  | call :: rest => by
    rw [clausesOfAll, mentionsAll, after_append, ← clauses_after t call]
    exact clausesOfAll_after _ rest

end

end Call

/-! ## The keys in the clauses of a call

`final` is what a request mentions altogether, so its table is the one that the request ends with.
What is mentioned so far is `ms`, and what a call mentions comes next. -/

section

variable {final : List Mention}

/-- An equality is keyed by the key that its value has in the end. -/
theorem Operand.equality_keyed (range : InRange final) {ms : List Mention} {value : Value}
    (h : ms ++ [.value value] <+: final) (key : String) :
    (equality (ofMentions ms) key value).1 = .basic key .equal ((ofMentions final).valueOf value) := by
  simp only [equality, Placeholders.valueKey_ofMentions range h]

/-- A comparison is keyed by the keys that its column and its value have in the end. -/
theorem Operand.predicate_keyed (range : InRange final) {ms : List Mention} {column : String}
    {operand : Operand} (h : ms ++ .column column :: operand.mentions <+: final) :
    (operand.predicate (ofMentions ms) column).1
      = (operand.direct column).map (ofMentions final).nameOf (ofMentions final).valueOf := by
  -- the column is used first, whatever the operand is
  obtain ⟨hcolumn, hrest⟩ := Mention.concat_prefix h
  simp only [predicate, Placeholders.nameKey_ofMentions range hcolumn]
  cases operand with
  | equals value => exact equality_keyed range hrest _
  | bare token =>
    cases hknown : isKnown token with
    | false =>
      -- the token is the string that the column has to equal
      simp only [mentions, hknown] at hrest
      simp only [direct, alone?_eq_none hknown]
      exact equality_keyed range hrest _
    | true =>
      obtain ⟨p, hp⟩ := alone?_eq_some (ω := Value) hknown column
      have hkeyed := alone?_map (ofMentions final).nameOf (ofMentions final).valueOf column token
      rw [hp, Option.map_some] at hkeyed
      simp only [direct, hp, ← hkeyed, Option.getD_some]
  | operator token value =>
    simp only [direct, Placeholders.valueKey_ofMentions range hrest, applied_map]

namespace Call

/-- A comparison of a size is keyed by the keys that its column and its value have in the end. -/
theorem sizePredicate_keyed (range : InRange final) {ms : List Mention} {column operator : String}
    {value : Value} (h : ms ++ [.column column, .value value] <+: final) :
    (sizePredicate (ofMentions ms) column operator value).1
      = (sizeDirect column operator value).map (ofMentions final).nameOf
          (ofMentions final).valueOf := by
  obtain ⟨hcolumn, hvalue⟩ := Mention.concat_prefix h
  simp only [sizePredicate, sizeDirect, Placeholders.nameKey_ofMentions range hcolumn,
    Placeholders.valueKey_ofMentions range hvalue]
  cases Comparison.ofToken? operator <;> rfl

/-- A membership is keyed by the keys that its column and its values have in the end. -/
theorem membershipPredicate_keyed (range : InRange final) {ms : List Mention} {column : String}
    {values : List Value} (h : ms ++ .column column :: values.map .value <+: final)
    (negated : Bool) :
    (membershipPredicate (ofMentions ms) column values negated).1
      = (Predicate.membership column values negated).map (ofMentions final).nameOf
          (ofMentions final).valueOf := by
  obtain ⟨hcolumn, hvalues⟩ := Mention.concat_prefix h
  simp only [membershipPredicate, Placeholders.nameKey_ofMentions range hcolumn,
    Placeholders.valueKeys_ofMentions range hvalues, Predicate.map]

/-- A range is keyed by the keys that its column and its bounds have in the end. -/
theorem betweenPredicate_keyed (range : InRange final) {ms : List Mention} {column : String}
    {low high : Value} (h : ms ++ [.column column, .value low, .value high] <+: final)
    (negated : Bool) :
    (betweenPredicate (ofMentions ms) column low high negated).1
      = (Predicate.between column low high negated).map (ofMentions final).nameOf
          (ofMentions final).valueOf := by
  obtain ⟨hcolumn, hvalues⟩ := Mention.concat_prefix h
  -- the lower bound is used before the upper one
  obtain ⟨hlow, hhigh⟩ := Mention.concat_prefix hvalues
  simp only [betweenPredicate, Placeholders.nameKey_ofMentions range hcolumn,
    Placeholders.valueKey_ofMentions range hlow, Placeholders.valueKey_ofMentions range hhigh,
    Predicate.map]

mutual

/-- **The clauses that a call adds** are its direct clauses, every column and value replaced by the
key that it has in the table that the request ends with. -/
theorem clauses_keyed (range : InRange final) : ∀ (call : Call) {ms : List Mention},
    call.isNative = true → ms ++ call.mentions <+: final →
      (call.clauses (ofMentions ms)).1
        = Clause.mapAll (ofMentions final).nameOf (ofMentions final).valueOf call.direct
  | .compare connector column operand, _, _, h => by
    simp only [clauses, direct, Clause.mapAll, Operand.predicate_keyed range h]
  | .size connector column operator value, _, _, h => by
    simp only [clauses, direct, Clause.mapAll, sizePredicate_keyed range h]
  | .membership connector column values negated, _, _, h => by
    simp only [clauses, direct, Clause.mapAll, membershipPredicate_keyed range h]
  | .between connector column low high negated, _, _, h => by
    simp only [clauses, direct, Clause.mapAll, betweenPredicate_keyed range h]
  | .group connector calls, _, native, h => by
    simp only [clauses, direct, clausesOfAll_keyed range calls native h, groupClauses_mapAll]
  | .graft _ _, _, native, _ => nomatch native

/-- The clauses of several calls are their direct clauses, keyed by the keys of the end. -/
theorem clausesOfAll_keyed (range : InRange final) : ∀ (calls : List Call) {ms : List Mention},
    areNative calls = true → ms ++ mentionsAll calls <+: final →
      (clausesOfAll (ofMentions ms) calls).1
        = Clause.mapAll (ofMentions final).nameOf (ofMentions final).valueOf (directAll calls)
  | [], _, _, _ => rfl
  | call :: rest, ms, native, h => by
    simp only [areNative, Bool.and_eq_true] at native
    rw [mentionsAll, ← List.append_assoc] at h
    have hcall : ms ++ call.mentions <+: final := (List.prefix_append _ _).trans h
    -- the rest of the calls find the table after what the first one mentions
    have htable : (call.clauses (ofMentions ms)).2 = ofMentions (ms ++ call.mentions) := by
      rw [clauses_after, Placeholders.after_ofMentions (range.of_prefix hcall)]
    simp only [clausesOfAll, directAll, Clause.mapAll_append, htable,
      clauses_keyed range call native.1 hcall, clausesOfAll_keyed range rest native.2 h]

end

end Call

end

/-! ## What direct clauses refer to -/

/-- Clauses refer to nothing but what is mentioned, and to all of it if they have no fault. A clause
without an expression has forgotten its column and its value, which are mentioned all the same. -/
structure Clause.Account (cs : List (Clause String Value)) (ms : List Mention) : Prop where
  columns : Clause.columnsAll cs ⊆ columnsOf ms
  values : Clause.valuesAll cs ⊆ valuesOf ms
  all : Clause.faultsAll cs = [] →
    Clause.columnsAll cs = columnsOf ms ∧ Clause.valuesAll cs = valuesOf ms

namespace Clause

theorem account_nil : Account [] [] := ⟨List.Subset.refl _, List.Subset.refl _, fun _ => ⟨rfl, rfl⟩⟩

/-- Clauses of two lists refer to what is mentioned for the one and then to what is mentioned for
the other. -/
theorem Account.append {as bs : List (Clause String Value)} {ms later : List Mention}
    (ha : Account as ms) (hb : Account bs later) : Account (as ++ bs) (ms ++ later) := by
  refine ⟨?_, ?_, ?_⟩
  · rw [columnsAll_append, Mention.columnsOf_append]
    exact List.append_subset.2 ⟨List.subset_append_of_subset_left _ ha.columns,
      List.subset_append_of_subset_right _ hb.columns⟩
  · rw [valuesAll_append, Mention.valuesOf_append]
    exact List.append_subset.2 ⟨List.subset_append_of_subset_left _ ha.values,
      List.subset_append_of_subset_right _ hb.values⟩
  · -- both lists are without faults if they are together
    intro h
    rw [faultsAll_append, List.append_eq_nil_iff] at h
    obtain ⟨hac, hav⟩ := ha.all h.1
    obtain ⟨hbc, hbv⟩ := hb.all h.2
    simp [hac, hav, hbc, hbv]

/-- A clause that refers to all that is mentioned. -/
theorem account_of_eq (connector : Connector) {p : Predicate String Value} {ms : List Mention}
    (hcolumns : p.columns = columnsOf ms) (hvalues : p.values = valuesOf ms) :
    Account [(connector, p)] ms := by
  have hc : columnsAll [(connector, p)] = columnsOf ms := by simp [columnsAll, hcolumns]
  have hv : valuesAll [(connector, p)] = valuesOf ms := by simp [valuesAll, hvalues]
  exact ⟨hc ▸ List.Subset.refl _, hv ▸ List.Subset.refl _, fun _ => ⟨hc, hv⟩⟩

/-- A clause without an expression refers to nothing, whatever is mentioned. -/
theorem account_unsupported (connector : Connector) (token : String) (reason : Unsupported)
    (ms : List Mention) : Account [(connector, .unsupported token reason)] ms := by
  refine ⟨List.nil_subset _, List.nil_subset _, fun h => ?_⟩
  simp [faultsAll, Predicate.faults] at h

end Clause

open Clause

/-- A token with a value mentions both its column and its value, and refers to both if it is
supported. -/
theorem Operand.account_applied (connector : Connector) (column token : String) (value : Value) :
    Account [(connector, applied column token value)] [.column column, .value value] := by
  unfold applied
  split
  · exact account_of_eq connector rfl rfl
  · split
    · split
      · exact account_unsupported connector token _ _
      · exact account_of_eq connector rfl rfl
    · exact account_unsupported connector token _ _

/-- A token alone mentions its column, and refers to it if it is supported. -/
theorem Operand.account_alone {column token : String} {p : Predicate String Value}
    (connector : Connector) (h : alone? column token = some p) :
    Account [(connector, p)] [.column column] := by
  unfold alone? at h
  split at h
  · rw [← Option.some.inj h]
    exact account_unsupported connector token _ _
  · obtain ⟨f, -, rfl⟩ := Option.map_eq_some_iff.1 h
    split
    · exact account_of_eq connector rfl rfl
    · exact account_unsupported connector token _ _

/-- A comparison refers to what it mentions, and to all of it if it is supported. -/
theorem Operand.account_direct (connector : Connector) (column : String) (operand : Operand) :
    Account [(connector, operand.direct column)] (.column column :: operand.mentions) := by
  cases operand with
  | equals value => exact account_of_eq connector rfl rfl
  | bare token =>
    cases hknown : isKnown token with
    | false =>
      simp only [direct, mentions, hknown, alone?_eq_none hknown]
      exact account_of_eq connector rfl rfl
    | true =>
      obtain ⟨p, hp⟩ := alone?_eq_some (ω := Value) hknown column
      simp only [direct, mentions, hknown, hp]
      exact account_alone connector hp
  | operator token value => exact account_applied connector column token value

/-- A comparison of a size refers to what it mentions, and to all of it if its token is an operator.
-/
theorem Call.account_size (connector : Connector) (column operator : String) (value : Value) :
    Account [(connector, sizeDirect column operator value)] [.column column, .value value] := by
  unfold sizeDirect
  split
  · exact account_of_eq connector rfl rfl
  · exact account_unsupported connector operator _ _

/-- A group refers to what its clauses refer to. -/
theorem Clause.Account.group {cs : List (Clause String Value)} {ms : List Mention}
    (h : Account cs ms) (connector : Connector) : Account (Call.groupClauses connector cs) ms := by
  refine ⟨?_, ?_, ?_⟩
  · rw [Call.columnsAll_groupClauses]
    exact h.columns
  · rw [Call.valuesAll_groupClauses]
    exact h.values
  · rw [Call.faultsAll_groupClauses, Call.columnsAll_groupClauses, Call.valuesAll_groupClauses]
    exact h.all

namespace Call

mutual

/-- **Direct clauses account for what a call mentions.** -/
theorem account_direct : ∀ call : Call, Account call.direct call.mentions
  | .compare connector column operand => operand.account_direct connector column
  | .size connector column operator value => account_size connector column operator value
  | .membership connector column values negated =>
    account_of_eq connector (by simp [Predicate.columns, mentions])
      (by simp [Predicate.values, mentions])
  | .between connector _ _ _ _ => account_of_eq connector rfl rfl
  | .group connector calls => (account_directAll calls).group connector
  | .graft _ _ => account_nil

/-- Several calls refer to what they mention, and to all of it if no clause has a fault. -/
theorem account_directAll : ∀ calls : List Call, Account (directAll calls) (mentionsAll calls)
  | [] => account_nil
  | call :: rest => (account_direct call).append (account_directAll rest)

end

end Call

end TableQuery
