import TableQuery.Proofs.Expression.Written
import TableQuery.Proofs.Mentions

/-!
# Keys in written conditions

The lexemes of a condition are words with marks between them, so its text can be cut into them
again. The words are keys, operators and names of functions; only the keys begin with a sigil.

* **`apart_lexemesAll`** — no two words touch in the expression of clauses.
* **`keys_lexemesAll`** — the keys that occur in it are those that the clauses refer to, from left
  to right.
* **`expression_keys`** — hence so are those in the expression of a slot, if there is one.
-/

namespace TableQuery

open Lexeme (textOf Apart IsWord)
open KeySupply (IsKey)

/-! ## Words that do not touch -/

section

/-- A group opens with a bracket or with `not`, so it stands apart from what precedes it if its body
does. -/
theorem apart_groupedLexemes {body x : List Lexeme} (negated : Bool)
    (h : Apart false (body ++ .closing :: x)) : Apart false (groupedLexemes negated body ++ x) := by
  have hnot : IsWord "not" := by decide
  -- `not` is the only word that a group may put in front of its bracket
  cases negated <;> simp [groupedLexemes, Apart, h, hnot]

/-- Parts with a separator between them, each of which ends with a word. -/
theorem apart_intercalate {separator x : List Lexeme} {parts : List (List Lexeme)}
    (hseparator : ∀ y, Apart false y → Apart true (separator ++ y))
    (hparts : ∀ part ∈ parts, ∀ y, Apart true y → Apart false (part ++ y)) (hx : Apart true x) :
    Apart false (separator.intercalate parts ++ x) := by
  induction parts with
  | nil => exact hx.anywhere false
  | cons part rest ih =>
    have hpart := hparts part (by simp)
    have hrest := ih fun p hp => hparts p (List.mem_cons_of_mem part hp)
    cases rest with
    | nil =>
      rw [List.intercalate_singleton]
      exact hpart x hx
    | cons next rest =>
      rw [List.intercalate_cons_cons, List.append_assoc, List.append_assoc]
      exact hpart _ (hseparator _ hrest)

/-- The keys of a list stand apart, since commas separate them. -/
theorem apart_listedLexemes {keys : List String} {x : List Lexeme}
    (hkeys : ∀ key ∈ keys, IsWord key) (hx : Apart true x) :
    Apart false (listedLexemes keys ++ x) := by
  refine apart_intercalate (fun y hy => hy) (fun part hpart y hy => ?_) hx
  obtain ⟨key, hkey, rfl⟩ := List.mem_map.1 hpart
  exact ⟨rfl, hkeys key hkey, hy⟩

/-- No operator has a blank or a mark in it. -/
theorem isWord_comparison (c : Comparison) : IsWord c.text := by
  cases c <;> decide

theorem isWord_function (f : ConditionFunction) : IsWord f.text := by
  cases f <;> decide

theorem isWord_connector (c : Connector) : IsWord c.text := by
  cases c <;> decide

mutual

/-- No two words touch in a predicate, nor its last word and what follows it. -/
theorem Predicate.apart_lexemes : ∀ (p : KeyedPredicate) {x : List Lexeme},
    Refers IsWord IsWord p.columns p.values → Apart true x → Apart false (p.lexemes ++ x)
  | .basic column operator value, _, h, hx =>
    ⟨rfl, h.column column (.head _), rfl, isWord_comparison operator, rfl,
      h.value value (.head _), hx⟩
  | .function f column (some value) comparison, x, h, hx => by
    have hcolumn := h.column column (.head _)
    have hvalue := h.value value (.head _)
    rw [Predicate.lexemes]
    -- only a size ends with a word
    split
    · exact ⟨rfl, isWord_function f, rfl, hcolumn, rfl, isWord_comparison comparison, rfl, hvalue,
        hx⟩
    · exact ⟨rfl, isWord_function f, rfl, hcolumn, rfl, hvalue, hx.anywhere false⟩
  | .function f column none _, _, h, hx =>
    ⟨rfl, isWord_function f, rfl, h.column column (.head _), hx.anywhere false⟩
  | .between column low high negated, _, h, hx =>
    apart_groupedLexemes negated
      ⟨rfl, h.column column (.head _), rfl, by decide, rfl, h.value low (.head _), rfl, by decide,
        rfl, h.value high (.tail _ (.head _)), hx.anywhere false⟩
  | .membership column values negated, x, h, hx => by
    have hlisted : Apart false (listedLexemes values ++ .closing :: .closing :: x) :=
      apart_listedLexemes h.value (hx.anywhere false)
    refine apart_groupedLexemes negated ⟨rfl, h.column column (.head _), rfl, by decide, ?_⟩
    simpa [Apart] using hlisted
  | .nested clauses, x, h, hx => by
    have hinner := Clause.apart_lexemesAll clauses (x := .closing :: x) h (hx.anywhere false)
    simpa [Predicate.lexemes, Apart] using hinner
  | .unsupported _ _, _, _, hx => hx.anywhere false

/-- No two words touch in the expression of clauses: each predicate stands apart from the connector
that follows it. -/
theorem Clause.apart_lexemesAll : ∀ (cs : List KeyedClause) {x : List Lexeme},
    Refers IsWord IsWord (Clause.columnsAll cs) (Clause.valuesAll cs) → Apart true x →
      Apart false (Clause.lexemesAll cs ++ x)
  | [], _, _, hx => hx.anywhere false
  | (_, p) :: rest, x, h, hx => by
    have hrest := Clause.apart_lexemesFollowing rest h.right hx
    rw [Clause.lexemesAll, List.append_assoc]
    exact p.apart_lexemes h.left hrest

/-- Clauses that follow others begin with a blank, so they may stand after a word. -/
theorem Clause.apart_lexemesFollowing : ∀ (cs : List KeyedClause) {x : List Lexeme},
    Refers IsWord IsWord (Clause.columnsAll cs) (Clause.valuesAll cs) → Apart true x →
      Apart true (Clause.lexemesFollowing cs ++ x)
  | [], _, _, hx => hx
  | (connector, p) :: rest, x, h, hx => by
    have hrest := Clause.apart_lexemesFollowing rest h.right hx
    have hp := p.apart_lexemes h.left hrest
    have hword := isWord_connector connector
    simp only [Clause.lexemesFollowing, List.cons_append, List.append_assoc]
    exact ⟨rfl, hword, hp⟩

end

end

/-! ## The keys that occur -/

namespace Lexeme

/-- The word is no key, of a name or of a value. -/
def Plain (text : String) : Prop :=
  text.toList.head? ≠ some nameSigil ∧ text.toList.head? ≠ some valueSigil

instance (text : String) : Decidable (Plain text) := inferInstanceAs (Decidable (_ ∧ _))

/-- A word that begins with no sigil adds no key, of either kind. -/
theorem keys_plain {text : String} (h : Plain text) :
    (∀ ls, keys nameSigil (.word text :: ls) = keys nameSigil ls)
      ∧ ∀ ls, keys valueSigil (.word text :: ls) = keys valueSigil ls := by
  refine ⟨fun ls => ?_, fun ls => ?_⟩
  · rw [keys_word, if_neg h.1, List.nil_append]
  · rw [keys_word, if_neg h.2, List.nil_append]

/-- A key is collected where its own sigil is looked for. -/
theorem keys_own {sigil : Char} {key : String} (h : IsKey sigil key) (ls : List Lexeme) :
    keys sigil (.word key :: ls) = key :: keys sigil ls := by
  rw [keys_word, if_pos h.head?]
  rfl

/-- A key is passed over where the other sigil is looked for. -/
theorem keys_other {sigil other : Char} {key : String} (h : IsKey sigil key)
    (hne : sigil ≠ other) (ls : List Lexeme) :
    keys other (.word key :: ls) = keys other ls := by
  rw [keys_word, if_neg (h.head?_ne hne), List.nil_append]

/-- A name key counts among the name keys only. -/
theorem keys_name {key : String} (h : IsKey nameSigil key) :
    (∀ ls, keys nameSigil (.word key :: ls) = key :: keys nameSigil ls)
      ∧ ∀ ls, keys valueSigil (.word key :: ls) = keys valueSigil ls :=
  ⟨keys_own h, keys_other h (by decide)⟩

/-- A value key counts among the value keys only. -/
theorem keys_value {key : String} (h : IsKey valueSigil key) :
    (∀ ls, keys nameSigil (.word key :: ls) = keys nameSigil ls)
      ∧ ∀ ls, keys valueSigil (.word key :: ls) = key :: keys valueSigil ls :=
  ⟨keys_other h (by decide), keys_own h⟩

/-- A separator without keys adds none. -/
theorem keys_intercalate {sigil : Char} {separator : List Lexeme} (h : keys sigil separator = [])
    (parts : List (List Lexeme)) :
    keys sigil (separator.intercalate parts) = parts.flatMap (keys sigil) := by
  induction parts with
  | nil => rfl
  | cons part rest ih =>
    cases rest with
    | nil => simp
    | cons next rest =>
      rw [List.intercalate_cons_cons, keys_append, keys_append, h, ih, List.append_nil]
      rfl

end Lexeme

open Lexeme (keys Plain keys_plain keys_name keys_value)

section

/-- Operators are not taken for keys. -/
theorem plain_comparison (c : Comparison) : Plain c.text := by
  cases c <;> decide

theorem plain_function (f : ConditionFunction) : Plain f.text := by
  cases f <;> decide

theorem plain_connector (c : Connector) : Plain c.text := by
  cases c <;> decide

/-- The brackets around a group and the `not` before it add no keys. -/
theorem keys_groupedLexemes (negated : Bool) (body : List Lexeme) :
    keys nameSigil (groupedLexemes negated body) = keys nameSigil body
      ∧ keys valueSigil (groupedLexemes negated body) = keys valueSigil body := by
  have hnot := keys_plain (show Plain "not" by decide)
  cases negated <;> simp [groupedLexemes, hnot]

/-- A list of keys holds these keys, in order. -/
theorem keys_listedLexemes {sigil : Char} {ks : List String} (h : ∀ key ∈ ks, IsKey sigil key) :
    keys sigil (listedLexemes ks) = ks := by
  -- the separators drop out first, so the induction is over single keys
  rw [listedLexemes, Lexeme.keys_intercalate rfl]
  induction ks with
  | nil => rfl
  | cons key rest ih =>
    have hrest := ih fun k hk => h k (List.mem_cons_of_mem key hk)
    rw [List.map_cons, List.flatMap_cons, hrest, Lexeme.keys_own (h key (by simp))]
    rfl

/-- A list of keys of one sigil holds none of the other. -/
theorem keys_listedLexemes_of_ne {sigil other : Char} {ks : List String}
    (h : ∀ key ∈ ks, IsKey sigil key) (hne : sigil ≠ other) : keys other (listedLexemes ks) = [] := by
  rw [listedLexemes, Lexeme.keys_intercalate rfl, List.flatMap_eq_nil_iff]
  intro part hpart
  obtain ⟨key, hkey, rfl⟩ := List.mem_map.1 hpart
  exact Lexeme.keys_other (h key hkey) hne []

/-- What is referred to are keys, of the right sigil. -/
abbrev OverKeys (columns values : List String) : Prop :=
  Refers (IsKey nameSigil) (IsKey valueSigil) columns values

mutual

/-- The keys in the expression of a predicate are its columns and its values, each from left to
right. -/
theorem Predicate.keys_lexemes : ∀ p : KeyedPredicate, OverKeys p.columns p.values →
    keys nameSigil p.lexemes = p.columns ∧ keys valueSigil p.lexemes = p.values
  | .basic column operator value, h => by
    have hcolumn := keys_name (h.column column (.head _))
    have hvalue := keys_value (h.value value (.head _))
    have hoperator := keys_plain (plain_comparison operator)
    simp [Predicate.lexemes, Predicate.columns, Predicate.values, hcolumn, hvalue, hoperator]
  | .function f column (some value) comparison, h => by
    have hcolumn := keys_name (h.column column (.head _))
    have hvalue := keys_value (h.value value (.head _))
    have hfunction := keys_plain (plain_function f)
    have hcomparison := keys_plain (plain_comparison comparison)
    rw [Predicate.lexemes]
    -- a size is written with an operator, the other functions with a second argument
    split <;> simp [Predicate.columns, Predicate.values, hcolumn, hvalue, hfunction, hcomparison]
  | .function f column none _, h => by
    have hcolumn := keys_name (h.column column (.head _))
    have hfunction := keys_plain (plain_function f)
    simp [Predicate.lexemes, Predicate.columns, Predicate.values, hcolumn, hfunction]
  | .between column low high negated, h => by
    have hcolumn := keys_name (h.column column (.head _))
    have hlow := keys_value (h.value low (.head _))
    have hhigh := keys_value (h.value high (.tail _ (.head _)))
    have hbetween := keys_plain (show Plain "between" by decide)
    have hand := keys_plain (show Plain "and" by decide)
    simp [Predicate.lexemes, Predicate.columns, Predicate.values, keys_groupedLexemes, hcolumn,
      hlow, hhigh, hbetween, hand]
  | .membership column vs negated, h => by
    have hcolumn := keys_name (h.column column (.head _))
    have hnames : keys nameSigil (listedLexemes vs) = [] :=
      keys_listedLexemes_of_ne h.value (by decide)
    have hvalues : keys valueSigil (listedLexemes vs) = vs := keys_listedLexemes h.value
    have hin := keys_plain (show Plain "in" by decide)
    simp [Predicate.lexemes, Predicate.columns, Predicate.values, keys_groupedLexemes, hcolumn,
      hnames, hvalues, hin]
  | .nested clauses, h => by
    have hclauses := Clause.keys_lexemesAll clauses h
    simp [Predicate.lexemes, Predicate.columns, Predicate.values, hclauses]
  | .unsupported _ _, _ => ⟨rfl, rfl⟩

/-- **The keys that occur in an expression** are those that its clauses refer to. -/
theorem Clause.keys_lexemesAll : ∀ cs : List KeyedClause,
    OverKeys (Clause.columnsAll cs) (Clause.valuesAll cs) →
      keys nameSigil (Clause.lexemesAll cs) = Clause.columnsAll cs
        ∧ keys valueSigil (Clause.lexemesAll cs) = Clause.valuesAll cs
  | [], _ => ⟨rfl, rfl⟩
  | (_, p) :: rest, h => by
    have hp := p.keys_lexemes h.left
    have hrest := Clause.keys_lexemesFollowing rest h.right
    simp [Clause.lexemesAll, Clause.columnsAll, Clause.valuesAll, hp, hrest]

/-- Behind the first clause as well: the connectors add nothing. -/
theorem Clause.keys_lexemesFollowing : ∀ cs : List KeyedClause,
    OverKeys (Clause.columnsAll cs) (Clause.valuesAll cs) →
      keys nameSigil (Clause.lexemesFollowing cs) = Clause.columnsAll cs
        ∧ keys valueSigil (Clause.lexemesFollowing cs) = Clause.valuesAll cs
  | [], _ => ⟨rfl, rfl⟩
  | (connector, p) :: rest, h => by
    have hp := p.keys_lexemes h.left
    have hrest := Clause.keys_lexemesFollowing rest h.right
    have hconnector := keys_plain (plain_connector connector)
    simp [Clause.lexemesFollowing, Clause.columnsAll, Clause.valuesAll, hp, hrest, hconnector]

end

end

/-! ## Conditions that are written -/

/-- Clauses over keys have a text that can be cut into lexemes again. -/
theorem OverKeys.apart {cs : List KeyedClause}
    (h : OverKeys (Clause.columnsAll cs) (Clause.valuesAll cs)) :
    Apart false (Clause.lexemesAll cs) := by
  have hwords : Refers IsWord IsWord (Clause.columnsAll cs) (Clause.valuesAll cs) :=
    h.imp (fun c hc => hc.isWord (by decide)) (fun v hv => hv.isWord (by decide))
  have hapart := Clause.apart_lexemesAll cs (x := []) hwords trivial
  rwa [List.append_nil] at hapart

namespace Condition

/-- Clauses that are written against a table with numbered keys have no fault, refer to everything
by keys, and are written as their lexemes. -/
theorem writeClauses_written {t : Placeholders} (numbered : t.Numbered) {cs : List KeyedClause}
    {s : String} (h : writeClauses t cs = .ok s) :
    Clause.faultsAll cs = [] ∧ OverKeys (Clause.columnsAll cs) (Clause.valuesAll cs)
      ∧ textOf (Clause.lexemesAll cs) = s := by
  obtain ⟨hoffences, htext⟩ := writeClauses_eq_ok.1 h
  have hdeclared := Clause.declared_of_offencesAll cs hoffences
  -- no offence leaves every key declared, and then a fault would be the only offence
  have hfaults : (Clause.faultsAll cs).map faultError = [] := by
    rw [← Clause.offencesAll_of_declared cs hdeclared, hoffences]
  exact ⟨List.map_eq_nil_iff.1 hfaults,
    hdeclared.imp (fun _ => numbered.isKey_name) (fun _ => numbered.isKey_value), htext⟩

/-- **The keys in the expression of a slot** are those that its clauses refer to. -/
theorem expression_keys {t : Placeholders} (numbered : t.Numbered) {cs : List KeyedClause}
    {e : Option String} (h : expression t cs = .ok e) :
    Clause.faultsAll cs = []
      ∧ e.toList.flatMap (Lexeme.keysIn nameSigil) = Clause.columnsAll cs
      ∧ e.toList.flatMap (Lexeme.keysIn valueSigil) = Clause.valuesAll cs := by
  unfold expression at h
  split at h
  · rename_i hempty
    cases h
    rw [List.isEmpty_iff.1 hempty]
    exact ⟨rfl, rfl, rfl⟩
  · obtain ⟨s, hs, rfl⟩ := map_eq_ok.1 h
    obtain ⟨hfaults, hkeys, rfl⟩ := writeClauses_written numbered hs
    obtain ⟨hnames, hvalues⟩ := Clause.keys_lexemesAll cs hkeys
    simp only [Option.toList_some, List.flatMap_singleton, Lexeme.keysIn_textOf (OverKeys.apart hkeys)]
    exact ⟨hfaults, hnames, hvalues⟩

end Condition

end TableQuery
