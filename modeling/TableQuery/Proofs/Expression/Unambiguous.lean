import TableQuery.Proofs.Expression.Keys

/-!
# Conditions are unambiguous

The text of a condition tells all about its clauses that is not left out on purpose: the connector
of the first clause of each group, and the comparison of functions other than the size. Clauses are
compared after these are forgotten (`Clause.normalAll`).

Words of the text play several parts, so the form of a predicate is told by looking ahead
(`Lexeme.form`): a parenthesis may open a range, a membership or a group, and only the third lexeme
after it makes the difference. Once two predicates are known to have the same form, their texts are
compared piece by piece, and each piece tells where the next one begins.

* **`form_lexemes`** — the form of a predicate is told by its first lexemes.
* **`normal_eq`**, **`normalAll_eq`** — predicates, and clauses up to a closing parenthesis, are told
  apart by their lexemes, whatever follows.
* **`writeClauses_unambiguous`** — hence they are told apart by their text.
-/

namespace TableQuery

open Lexeme (textOf)

/-! ## What the text does not tell -/

mutual

/-- A predicate without what is not written of it. -/
def Predicate.normal {ν ω : Type} : Predicate ν ω → Predicate ν ω
  | .basic column operator value => .basic column operator value
  | .function f column value comparison =>
    .function f column value (if f = .size then comparison else .equal)
  | .between column low high negated => .between column low high negated
  | .membership column values negated => .membership column values negated
  | .nested clauses => .nested (Clause.normalAll clauses)
  | .unsupported token reason => .unsupported token reason

/-- Clauses without what is not written of them; the connector of the first one is not. -/
def Clause.normalAll {ν ω : Type} : List (Clause ν ω) → List (Clause ν ω)
  | [] => []
  | (_, p) :: rest => (.and, p.normal) :: Clause.normalFollowing rest

def Clause.normalFollowing {ν ω : Type} : List (Clause ν ω) → List (Clause ν ω)
  | [] => []
  | (connector, p) :: rest => (connector, p.normal) :: Clause.normalFollowing rest

end

mutual

/-- What is forgotten of a predicate is not in its lexemes. -/
theorem Predicate.lexemes_normal : ∀ p : KeyedPredicate, p.normal.lexemes = p.lexemes
  | .basic .. => rfl
  | .function f column value comparison => by
    cases value with
    | none => rfl
    | some value =>
      by_cases h : f = .size
      · simp [Predicate.normal, Predicate.lexemes, h]
      · simp [Predicate.normal, Predicate.lexemes, h]
  | .between .. => rfl
  | .membership .. => rfl
  | .nested clauses => by
    rw [Predicate.normal, Predicate.lexemes, Clause.lexemesAll_normalAll clauses]
    rfl
  | .unsupported .. => rfl

/-- What is forgotten is not written. -/
theorem Clause.lexemesAll_normalAll :
    ∀ cs : List KeyedClause, Clause.lexemesAll (Clause.normalAll cs) = Clause.lexemesAll cs
  | [] => rfl
  | (_, p) :: rest => by
    rw [Clause.normalAll, Clause.lexemesAll, Clause.lexemesAll, p.lexemes_normal,
      Clause.lexemesFollowing_normalFollowing rest]

/-- What is forgotten of the clauses behind the first is not in their lexemes; their connectors are
kept. -/
theorem Clause.lexemesFollowing_normalFollowing : ∀ cs : List KeyedClause,
    Clause.lexemesFollowing (Clause.normalFollowing cs) = Clause.lexemesFollowing cs
  | [] => rfl
  | (connector, p) :: rest => by
    rw [Clause.normalFollowing, Clause.lexemesFollowing, Clause.lexemesFollowing, p.lexemes_normal,
      Clause.lexemesFollowing_normalFollowing rest]

end

/-! ## The form of a predicate -/

/-- The forms that predicates are written in. -/
inductive Predicate.Form where
  | basic
  | function
  | between (negated : Bool)
  | membership (negated : Bool)
  | nested

namespace Lexeme

/-- The form of what stands in parentheses, as the third of its lexemes tells. -/
def bodyForm (negated : Bool) : List Lexeme → Predicate.Form
  | .word _ :: .blank :: .word connective :: _ =>
    if connective = "between" then .between negated
    else if connective = "in" then .membership negated
    else .nested
  | _ => .nested

/-- The form of the predicate that lexemes begin with. -/
def form : List Lexeme → Predicate.Form
  | .opening :: body => bodyForm false body
  | .word _ :: .blank :: .opening :: body => bodyForm true body
  | .word _ :: .opening :: _ => .function
  | _ => .basic

end Lexeme

def Predicate.form : KeyedPredicate → Predicate.Form
  | .basic .. => .basic
  | .function .. => .function
  | .between _ _ _ negated => .between negated
  | .membership _ _ negated => .membership negated
  | .nested _ => .nested
  | .unsupported .. => .basic

/-- No operator is a word that begins a range or a membership. -/
theorem text_ne_connective (c : Comparison) : c.text ≠ "between" ∧ c.text ≠ "in" := by
  cases c <;> decide

/-- Clauses in parentheses do not look like a range or a membership. -/
theorem Clause.bodyForm_lexemesAll {cs : List KeyedClause} (faultless : Clause.faultsAll cs = [])
    (x : List Lexeme) :
    Lexeme.bodyForm false (Clause.lexemesAll cs ++ .closing :: x) = .nested := by
  cases cs with
  | nil => rfl
  | cons c rest =>
    obtain ⟨connector, p⟩ := c
    -- only a comparison begins with a name and a blank, and then an operator follows
    cases p with
    | basic column operator value =>
      obtain ⟨hbetween, hin⟩ := text_ne_connective operator
      show (if operator.text = "between" then _ else _) = _
      rw [if_neg hbetween, if_neg hin]
    | function f column value comparison =>
      cases value with
      | none => rfl
      | some value => by_cases h : f = .size <;> simp [lexemesAll, Predicate.lexemes, h] <;> rfl
    | between column low high negated => cases negated <;> rfl
    | membership column values negated => cases negated <;> rfl
    | nested clauses => rfl
    | unsupported token reason => cases faultless

/-- **The form of a predicate** is told by its first lexemes. -/
theorem Predicate.form_lexemes {p : KeyedPredicate} (faultless : p.faults = []) (x : List Lexeme) :
    Lexeme.form (p.lexemes ++ x) = p.form := by
  cases p with
  | basic column operator value => rfl
  | function f column value comparison =>
    cases value with
    | none => rfl
    | some value => by_cases h : f = .size <;> simp [lexemes, h] <;> rfl
  | between column low high negated => cases negated <;> rfl
  | membership column values negated => cases negated <;> rfl
  | nested clauses =>
    have hbody := Clause.bodyForm_lexemesAll faultless x
    simpa [lexemes, Lexeme.form, form] using hbody
  | unsupported token reason => cases faultless

/-- Predicates with the same lexemes have the same form, whatever follows them. -/
theorem Predicate.form_eq {p q : KeyedPredicate} {x y : List Lexeme} (hp : p.faults = [])
    (hq : q.faults = []) (h : p.lexemes ++ x = q.lexemes ++ y) : p.form = q.form := by
  rw [← form_lexemes hp x, h, form_lexemes hq y]

/-! ## Where clauses end -/

namespace Lexeme

/-- Nothing is left of a group, or of the whole text. -/
def atEnd : List Lexeme → Bool
  | [] => true
  | .closing :: _ => true
  | _ => false

end Lexeme

/-- A predicate does not end a group, since its first lexeme closes nothing. -/
theorem Predicate.atEnd_lexemes {p : KeyedPredicate} (faultless : p.faults = []) (x : List Lexeme) :
    Lexeme.atEnd (p.lexemes ++ x) = false := by
  cases p with
  | basic column operator value => rfl
  | function f column value comparison =>
    cases value with
    | none => rfl
    | some value => by_cases h : f = .size <;> simp [lexemes, h] <;> rfl
  | between column low high negated => cases negated <;> rfl
  | membership column values negated => cases negated <;> rfl
  | nested clauses => rfl
  | unsupported token reason => cases faultless

/-! ## Reading the pieces of a text -/

/-- Operators are told apart by their text. -/
theorem comparison_text_inj {c d : Comparison} (h : c.text = d.text) : c = d := by
  revert h
  cases c <;> cases d <;> decide

theorem function_text_inj {f g : ConditionFunction} (h : f.text = g.text) : f = g := by
  revert h
  cases f <;> cases g <;> decide

theorem connector_text_inj {c d : Connector} (h : c.text = d.text) : c = d := by
  revert h
  cases c <;> cases d <;> decide

/-- Negated or not, what stands in parentheses can be taken out of them. -/
theorem groupedLexemes_inj {negated : Bool} {body body' x y : List Lexeme}
    (h : groupedLexemes negated body ++ x = groupedLexemes negated body' ++ y) :
    body ++ .closing :: x = body' ++ .closing :: y := by
  cases negated <;> simpa [groupedLexemes] using h

/-- Keys with commas between them are told by what stands before the closing parenthesis. -/
theorem listedLexemes_inj {vs ws : List String} {x y : List Lexeme}
    (h : listedLexemes vs ++ .closing :: x = listedLexemes ws ++ .closing :: y) :
    vs = ws ∧ x = y := by
  unfold listedLexemes at h
  -- what stands behind a value, a comma or the bracket, tells whether there is another one
  induction vs generalizing ws with
  | nil =>
    cases ws with
    | nil => simpa using h
    | cons w ws => cases ws <;> simp at h
  | cons v vs ih =>
    cases ws with
    | nil => cases vs <;> simp at h
    | cons w ws =>
      cases vs with
      | nil =>
        cases ws with
        | nil => simpa using h
        | cons w' ws => simp at h
      | cons v' vs =>
        cases ws with
        | nil => simp at h
        | cons w' ws =>
          simp only [List.map_cons, List.intercalate_cons_cons, List.cons_append, List.nil_append,
            List.cons.injEq, Lexeme.word.injEq, true_and] at h
          obtain ⟨rfl, htail⟩ := h
          obtain ⟨hrest, hxy⟩ := @ih (w' :: ws) htail
          exact ⟨by rw [hrest], hxy⟩

/-! ## Reading predicates and clauses

Both sides may be followed by anything, so that the induction goes through what stands before. -/

/-- A size without a value is a fault. -/
theorem Predicate.ne_size_of_faultless {f : ConditionFunction} {column : String}
    {comparison : Comparison}
    (faultless : (Predicate.function f column none comparison : KeyedPredicate).faults = []) :
    f ≠ .size := by
  rintro rfl
  cases faultless

/-- A function is told by its name, its column and whether a value follows in the parentheses, or
the comparison of a size after them. -/
theorem Predicate.normal_eq_of_function {f g : ConditionFunction} {column column' : String}
    {value value' : Option String} {comparison comparison' : Comparison} {x y : List Lexeme}
    (hp : (Predicate.function f column value comparison : KeyedPredicate).faults = [])
    (hq : (Predicate.function g column' value' comparison' : KeyedPredicate).faults = [])
    (h : (Predicate.function f column value comparison).lexemes ++ x
      = (Predicate.function g column' value' comparison').lexemes ++ y) :
    (Predicate.function f column value comparison).normal
        = (Predicate.function g column' value' comparison').normal
      ∧ x = y := by
  cases value with
  | none =>
    have hf := ne_size_of_faultless hp
    cases value' with
    | none =>
      simp only [lexemes, List.cons_append, List.nil_append, List.cons.injEq, Lexeme.word.injEq,
        true_and] at h
      obtain ⟨hfg, rfl, hxy⟩ := h
      cases function_text_inj hfg
      simp [normal, hf, hxy]
    | some value' =>
      by_cases hg : g = .size
      · -- a size writes its name first, which no other function does
        subst hg
        simp only [lexemes, if_true, List.cons_append, List.nil_append, List.cons.injEq,
          Lexeme.word.injEq, true_and] at h
        exact absurd (function_text_inj h.1) hf
      · simp [lexemes, hg] at h
  | some value =>
    cases value' with
    | none =>
      have hg := ne_size_of_faultless hq
      by_cases hf : f = .size
      · subst hf
        simp only [lexemes, if_true, List.cons_append, List.nil_append, List.cons.injEq,
          Lexeme.word.injEq, true_and] at h
        exact absurd (function_text_inj h.1).symm hg
      · simp [lexemes, hf] at h
    | some value' =>
      -- only a size has anything after the parentheses
      by_cases hf : f = .size
      · by_cases hg : g = .size
        · subst hf hg
          simp only [lexemes, if_true, List.cons_append, List.nil_append, List.cons.injEq,
            Lexeme.word.injEq, true_and] at h
          obtain ⟨rfl, hcomparison, rfl, rfl⟩ := h
          rw [comparison_text_inj hcomparison]
          exact ⟨rfl, rfl⟩
        · simp [lexemes, hf, hg] at h
      · by_cases hg : g = .size
        · simp [lexemes, hf, hg] at h
        · simp only [lexemes, hf, hg, if_false, List.cons_append, List.nil_append,
            List.cons.injEq, Lexeme.word.injEq, true_and] at h
          obtain ⟨hfg, rfl, rfl, rfl⟩ := h
          cases function_text_inj hfg
          simp [normal, hf]

mutual

/-- **Predicates are told apart by their lexemes**, whatever follows. -/
theorem Predicate.normal_eq : ∀ (p q : KeyedPredicate) {x y : List Lexeme}, p.faults = [] →
    q.faults = [] → p.lexemes ++ x = q.lexemes ++ y → p.normal = q.normal ∧ x = y
  | .basic column operator value, q, x, y, hp, hq, h => by
    have hform := Predicate.form_eq hp hq h
    -- a predicate without an expression would have the same form, but it is a fault
    cases q with
    | basic column' operator' value' =>
      simp only [Predicate.lexemes, List.cons_append, List.nil_append, List.cons.injEq,
        Lexeme.word.injEq, true_and] at h
      obtain ⟨rfl, hoperator, rfl, rfl⟩ := h
      rw [comparison_text_inj hoperator]
      exact ⟨rfl, rfl⟩
    | unsupported => cases hq
    | _ => cases hform
  | .function f column value comparison, q, x, y, hp, hq, h => by
    have hform := Predicate.form_eq hp hq h
    cases q with
    | function g column' value' comparison' => exact Predicate.normal_eq_of_function hp hq h
    | _ => cases hform
  | .between column low high negated, q, x, y, hp, hq, h => by
    have hform := Predicate.form_eq hp hq h
    cases q with
    | between column' low' high' negated' =>
      cases hform
      have hbody := groupedLexemes_inj h
      simp only [List.cons_append, List.nil_append, List.cons.injEq, Lexeme.word.injEq,
        true_and] at hbody
      obtain ⟨rfl, rfl, rfl, rfl⟩ := hbody
      exact ⟨rfl, rfl⟩
    | _ => cases hform
  | .membership column values negated, q, x, y, hp, hq, h => by
    have hform := Predicate.form_eq hp hq h
    cases q with
    | membership column' values' negated' =>
      -- negated on both sides or on neither; then the keys end where the parenthesis closes
      cases hform
      have hbody := groupedLexemes_inj h
      simp only [List.cons_append, List.append_assoc, List.nil_append, List.cons.injEq,
        Lexeme.word.injEq, true_and] at hbody
      obtain ⟨rfl, hlist⟩ := hbody
      obtain ⟨rfl, hxy⟩ := listedLexemes_inj hlist
      exact ⟨rfl, (List.cons.inj hxy).2⟩
    | _ => cases hform
  | .nested clauses, q, x, y, hp, hq, h => by
    have hform := Predicate.form_eq hp hq h
    cases q with
    | nested clauses' =>
      simp only [Predicate.lexemes, List.cons_append, List.append_assoc, List.nil_append,
        List.cons.injEq, true_and] at h
      -- what follows the inner clauses begins with a closing parenthesis
      obtain ⟨hclauses, hxy⟩ := Clause.normalAll_eq clauses clauses' hp hq rfl rfl h
      rw [Predicate.normal, Predicate.normal, hclauses]
      exact ⟨rfl, (List.cons.inj hxy).2⟩
    | _ => cases hform
  | .unsupported .., _, _, _, hp, _, _ => by cases hp

/-- **Clauses are told apart by their lexemes**, up to the end of their group. -/
theorem Clause.normalAll_eq : ∀ (cs ds : List KeyedClause) {x y : List Lexeme},
    Clause.faultsAll cs = [] → Clause.faultsAll ds = [] → Lexeme.atEnd x = true →
      Lexeme.atEnd y = true → Clause.lexemesAll cs ++ x = Clause.lexemesAll ds ++ y →
        Clause.normalAll cs = Clause.normalAll ds ∧ x = y
  | [], [], _, _, _, _, _, _, h => ⟨rfl, h⟩
  | [], (_, q) :: ds, x, y, _, hds, hx, _, h => by
    rw [Clause.faultsAll, List.append_eq_nil_iff] at hds
    -- nothing is left on the one side, and a predicate begins on the other
    have hq := Predicate.atEnd_lexemes hds.1 (Clause.lexemesFollowing ds ++ y)
    rw [Clause.lexemesAll, List.nil_append, Clause.lexemesAll, List.append_assoc] at h
    rw [← h, hx] at hq
    cases hq
  | (_, p) :: cs, [], x, y, hcs, _, _, hy, h => by
    rw [Clause.faultsAll, List.append_eq_nil_iff] at hcs
    have hp := Predicate.atEnd_lexemes hcs.1 (Clause.lexemesFollowing cs ++ x)
    rw [Clause.lexemesAll, Clause.lexemesAll, List.nil_append, List.append_assoc] at h
    rw [h, hy] at hp
    cases hp
  | (_, p) :: cs, (_, q) :: ds, x, y, hcs, hds, hx, hy, h => by
    rw [Clause.faultsAll, List.append_eq_nil_iff] at hcs hds
    rw [Clause.lexemesAll, Clause.lexemesAll, List.append_assoc, List.append_assoc] at h
    obtain ⟨hpq, hrest⟩ := Predicate.normal_eq p q hcs.1 hds.1 h
    obtain ⟨hcsds, hxy⟩ := Clause.normalFollowing_eq cs ds hcs.2 hds.2 hx hy hrest
    rw [Clause.normalAll, Clause.normalAll, hpq, hcsds]
    exact ⟨rfl, hxy⟩

/-- The clauses behind the first are told apart by their lexemes: each begins with a blank, which
neither the end of a group nor that of the text does. -/
theorem Clause.normalFollowing_eq : ∀ (cs ds : List KeyedClause) {x y : List Lexeme},
    Clause.faultsAll cs = [] → Clause.faultsAll ds = [] → Lexeme.atEnd x = true →
      Lexeme.atEnd y = true → Clause.lexemesFollowing cs ++ x = Clause.lexemesFollowing ds ++ y →
        Clause.normalFollowing cs = Clause.normalFollowing ds ∧ x = y
  | [], [], _, _, _, _, _, _, h => ⟨rfl, h⟩
  | [], (_, _) :: _, x, _, _, _, hx, _, h => by
    -- clauses that follow begin with a blank
    have hblank : x = .blank :: _ := h
    rw [hblank] at hx
    cases hx
  | (_, _) :: _, [], _, y, _, _, _, hy, h => by
    have hblank : y = .blank :: _ := h.symm
    rw [hblank] at hy
    cases hy
  | (connector, p) :: cs, (connector', q) :: ds, x, y, hcs, hds, hx, hy, h => by
    rw [Clause.faultsAll, List.append_eq_nil_iff] at hcs hds
    simp only [Clause.lexemesFollowing, List.cons_append, List.append_assoc, List.cons.injEq,
      Lexeme.word.injEq, true_and] at h
    obtain ⟨hconnector, h⟩ := h
    obtain ⟨hpq, hrest⟩ := Predicate.normal_eq p q hcs.1 hds.1 h
    obtain ⟨hcsds, hxy⟩ := Clause.normalFollowing_eq cs ds hcs.2 hds.2 hx hy hrest
    rw [Clause.normalFollowing, Clause.normalFollowing, hpq, hcsds, connector_text_inj hconnector]
    exact ⟨rfl, hxy⟩

end

/-! ## Telling texts apart -/

namespace Condition

/-- **Conditions are unambiguous.** Against a table that declarations lead to, two lists of clauses
are written alike if and only if they differ in nothing but the connector of the first clause of a
group and the comparison of a function other than the size. -/
theorem writeClauses_unambiguous (ms : List Mention) {cs ds : List KeyedClause} {s s' : String}
    (hcs : writeClauses (Placeholders.empty.after ms) cs = .ok s)
    (hds : writeClauses (Placeholders.empty.after ms) ds = .ok s') :
    s = s' ↔ Clause.normalAll cs = Clause.normalAll ds := by
  have numbered := Placeholders.numbered_empty.after ms
  obtain ⟨hcf, hck, hct⟩ := writeClauses_written numbered hcs
  obtain ⟨hdf, hdk, hdt⟩ := writeClauses_written numbered hds
  rw [← hct, ← hdt]
  constructor
  · intro htext
    have hlexemes : Clause.lexemesAll cs ++ [] = Clause.lexemesAll ds ++ [] := by
      rw [List.append_nil, List.append_nil]
      exact Lexeme.textOf_inj (OverKeys.apart hck) (OverKeys.apart hdk) htext
    exact (Clause.normalAll_eq cs ds hcf hdf rfl rfl hlexemes).1
  · intro hnormal
    rw [← Clause.lexemesAll_normalAll cs, hnormal, Clause.lexemesAll_normalAll]

/-- A group of a range and a comparison, in which the connectors of two first clauses are open. -/
def viewsClauses (outer inner : Connector) : List KeyedClause :=
  [(outer, .nested [(inner, .between "#1" ":1" ":2" true), (.or, .basic "#1" .less ":2")])]

def viewsMentions : List Mention :=
  [.column "Views", .value (.number "1"), .value (.number "9")]

/-- The connectors of two first clauses are exchanged, and the text stays the same. -/
theorem writeClauses_unambiguous_views :
    writeClauses (.after .empty viewsMentions) (viewsClauses .or .and)
        = .ok "(not (#1 between :1 and :2) or #1 < :2)"
      ∧ writeClauses (.after .empty viewsMentions) (viewsClauses .and .or)
        = .ok "(not (#1 between :1 and :2) or #1 < :2)"
      ∧ Clause.normalAll (viewsClauses .or .and) = Clause.normalAll (viewsClauses .and .or) :=
  ⟨rfl, rfl, (writeClauses_unambiguous viewsMentions rfl rfl).1 rfl⟩

end Condition

end TableQuery
