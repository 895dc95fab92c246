import TableQuery.Condition.Expression
import TableQuery.Proofs.Clauses
import TableQuery.Proofs.Expression.Lexeme
import TableQuery.Proofs.Report

/-!
# Written conditions

Writing a condition checks its keys and clauses on the way, and reports the first offence. Both
halves are told apart here: the offences of clauses, in the order in which they are met
(`Clause.offencesAll`), and the lexemes of their expression, which need no table
(`Clause.lexemesAll`).

* **`writeClauses_eq`** — what is written is the first offence, or else the text of the lexemes.
* **`declared_of_offencesAll`**, **`offencesAll_of_declared`** — without an offence every key is
  declared; and if every key is declared, the offences are the faults of the clauses.
-/

namespace TableQuery

open Lexeme (textOf textOf_append)

namespace Placeholders

def undeclaredName (t : Placeholders) (key : String) : List RequestError :=
  if t.declaresName key then [] else [.danglingPlaceholder key]

def undeclaredValue (t : Placeholders) (key : String) : List RequestError :=
  if t.declaresValue key then [] else [.danglingPlaceholder key]

/-- Looking up a name key reports it if it is not declared, and nothing else. -/
theorem declaredName_eq (t : Placeholders) (key : String) :
    t.declaredName key = report (t.undeclaredName key) key := by
  unfold declaredName undeclaredName
  split <;> rfl

/-- Looking up a value key reports it if it is not declared, and nothing else. -/
theorem declaredValue_eq (t : Placeholders) (key : String) :
    t.declaredValue key = report (t.undeclaredValue key) key := by
  unfold declaredValue undeclaredValue
  split <;> rfl

/-- The value keys of a membership are looked up from left to right. -/
theorem declaredValues_eq (t : Placeholders) (keys : List String) :
    t.declaredValues keys = report (keys.flatMap t.undeclaredValue) keys := by
  induction keys with
  | nil => rfl
  | cons key rest ih =>
    rw [declaredValues, declaredValue_eq, ih, List.flatMap_cons]
    exact report_bind report_bind_pure

/-- There is nothing to report of a name key that is declared. -/
theorem undeclaredName_eq_nil {t : Placeholders} {key : String} :
    t.undeclaredName key = [] ↔ t.declaresName key = true := by
  unfold undeclaredName
  split <;> simp [*]

/-- There is nothing to report of a value key that is declared. -/
theorem undeclaredValue_eq_nil {t : Placeholders} {key : String} :
    t.undeclaredValue key = [] ↔ t.declaresValue key = true := by
  unfold undeclaredValue
  split <;> simp [*]

end Placeholders

/-! ## Offences -/

mutual

/-- Everything for which a predicate cannot be written, in the order in which it is met. -/
def Predicate.offences (t : Placeholders) : KeyedPredicate → List RequestError
  | .basic column _ value => t.undeclaredName column ++ t.undeclaredValue value
  | .function _ column (some value) _ => t.undeclaredName column ++ t.undeclaredValue value
  | .function f column none _ =>
    t.undeclaredName column
      ++ if f.arity = 0 then [] else [.unsupportedPredicate f.text .functionWithoutValue]
  | .between column low high _ =>
    t.undeclaredName column ++ (t.undeclaredValue low ++ t.undeclaredValue high)
  | .membership column values _ =>
    if values.isEmpty then [.unsupportedPredicate "in" .noMembers]
    else values.flatMap t.undeclaredValue ++ t.undeclaredName column
  | .nested clauses => Clause.offencesAll t clauses
  | .unsupported token reason => [.unsupportedPredicate token reason]

def Clause.offencesAll (t : Placeholders) : List KeyedClause → List RequestError
  | [] => []
  | (_, p) :: rest => p.offences t ++ Clause.offencesAll t rest

end

/-- Every key that is referred to is declared. -/
abbrev Placeholders.Declares (t : Placeholders) (columns values : List String) : Prop :=
  Refers (fun c => t.declaresName c = true) (fun v => t.declaresValue v = true) columns values

mutual

/-- Nothing is written unless every key is declared. -/
theorem Predicate.declared_of_offences {t : Placeholders} : ∀ p : KeyedPredicate,
    p.offences t = [] → t.Declares p.columns p.values
  | .basic .., h => by
    rw [Predicate.offences, List.append_eq_nil_iff, Placeholders.undeclaredName_eq_nil,
      Placeholders.undeclaredValue_eq_nil] at h
    exact ⟨by simpa [Predicate.columns] using h.1, by simpa [Predicate.values] using h.2⟩
  | .function _ _ (some _) _, h => by
    rw [Predicate.offences, List.append_eq_nil_iff, Placeholders.undeclaredName_eq_nil,
      Placeholders.undeclaredValue_eq_nil] at h
    exact ⟨by simpa [Predicate.columns] using h.1, by simpa [Predicate.values] using h.2⟩
  | .function _ _ none _, h => by
    rw [Predicate.offences, List.append_eq_nil_iff, Placeholders.undeclaredName_eq_nil] at h
    exact ⟨by simpa [Predicate.columns] using h.1, nofun⟩
  | .between .., h => by
    rw [Predicate.offences, List.append_eq_nil_iff, List.append_eq_nil_iff,
      Placeholders.undeclaredName_eq_nil, Placeholders.undeclaredValue_eq_nil,
      Placeholders.undeclaredValue_eq_nil] at h
    exact ⟨by simpa [Predicate.columns] using h.1, by simpa [Predicate.values] using h.2⟩
  | .membership column vs _, h => by
    -- without members there is an offence, whatever is declared
    have hne : vs.isEmpty = false := by
      cases vs with
      | nil => cases h
      | cons v rest => rfl
    rw [Predicate.offences, hne, if_neg (by decide), List.append_eq_nil_iff,
      List.flatMap_eq_nil_iff, Placeholders.undeclaredName_eq_nil] at h
    exact ⟨by simpa [Predicate.columns] using h.2,
      fun v hv => Placeholders.undeclaredValue_eq_nil.1 (h.1 v hv)⟩
  | .nested clauses, h => Clause.declared_of_offencesAll clauses h
  | .unsupported .., h => by cases h

/-- Clauses without an offence have declared keys only, groups included. -/
theorem Clause.declared_of_offencesAll {t : Placeholders} : ∀ cs : List KeyedClause,
    Clause.offencesAll t cs = [] → t.Declares (Clause.columnsAll cs) (Clause.valuesAll cs)
  | [], _ => .nil
  | (_, p) :: rest, h => by
    rw [Clause.offencesAll, List.append_eq_nil_iff] at h
    exact (p.declared_of_offences h.1).append (Clause.declared_of_offencesAll rest h.2)

end

/-- A fault, as the error that it is reported with. -/
def faultError (fault : String × Unsupported) : RequestError :=
  .unsupportedPredicate fault.1 fault.2

mutual

/-- Where every key is declared, only faults are left to report. -/
theorem Predicate.offences_of_declared {t : Placeholders} : ∀ p : KeyedPredicate,
    t.Declares p.columns p.values → p.offences t = p.faults.map faultError
  | .basic column _ value, h => by
    have hcolumn := Placeholders.undeclaredName_eq_nil.2 (h.column column (.head _))
    have hvalue := Placeholders.undeclaredValue_eq_nil.2 (h.value value (.head _))
    rw [Predicate.offences, hcolumn, hvalue]
    rfl
  | .function _ column (some value) _, h => by
    have hcolumn := Placeholders.undeclaredName_eq_nil.2 (h.column column (.head _))
    have hvalue := Placeholders.undeclaredValue_eq_nil.2 (h.value value (.head _))
    rw [Predicate.offences, hcolumn, hvalue]
    rfl
  | .function f column none _, h => by
    have hcolumn := Placeholders.undeclaredName_eq_nil.2 (h.column column (.head _))
    rw [Predicate.offences, Predicate.faults, hcolumn, List.nil_append]
    split <;> rfl
  | .between column low high _, h => by
    have hcolumn := Placeholders.undeclaredName_eq_nil.2 (h.column column (.head _))
    have hlow := Placeholders.undeclaredValue_eq_nil.2 (h.value low (.head _))
    have hhigh := Placeholders.undeclaredValue_eq_nil.2 (h.value high (.tail _ (.head _)))
    rw [Predicate.offences, hcolumn, hlow, hhigh]
    rfl
  | .membership column vs _, h => by
    have hcolumn := Placeholders.undeclaredName_eq_nil.2 (h.column column (.head _))
    have hvalues : vs.flatMap t.undeclaredValue = [] :=
      List.flatMap_eq_nil_iff.2 fun v hv => Placeholders.undeclaredValue_eq_nil.2 (h.value v hv)
    -- a membership without values is at fault before its column is looked at
    rw [Predicate.offences, Predicate.faults, hcolumn, hvalues]
    split <;> rfl
  | .nested clauses, h => Clause.offencesAll_of_declared clauses h
  | .unsupported .., _ => rfl

/-- If all keys are declared, the offences of clauses are their faults. -/
theorem Clause.offencesAll_of_declared {t : Placeholders} : ∀ cs : List KeyedClause,
    t.Declares (Clause.columnsAll cs) (Clause.valuesAll cs) →
      Clause.offencesAll t cs = (Clause.faultsAll cs).map faultError
  | [], _ => rfl
  | (_, p) :: rest, h => by
    rw [Clause.offencesAll, Clause.faultsAll, p.offences_of_declared h.left,
      Clause.offencesAll_of_declared rest h.right, List.map_append]

end

mutual

/-- The offences of a predicate depend on which keys are declared, and not on what they are bound
to. -/
theorem Predicate.offences_congr {t t' : Placeholders}
    (hnames : t.undeclaredName = t'.undeclaredName)
    (hvalues : t.undeclaredValue = t'.undeclaredValue) :
    ∀ p : KeyedPredicate, p.offences t = p.offences t'
  | .basic .. => by rw [Predicate.offences, Predicate.offences, hnames, hvalues]
  | .function _ _ (some _) _ => by rw [Predicate.offences, Predicate.offences, hnames, hvalues]
  | .function _ _ none _ => by rw [Predicate.offences, Predicate.offences, hnames]
  | .between .. => by rw [Predicate.offences, Predicate.offences, hnames, hvalues]
  | .membership .. => by rw [Predicate.offences, Predicate.offences, hnames, hvalues]
  | .nested clauses => Clause.offencesAll_congr hnames hvalues clauses
  | .unsupported .. => rfl

/-- Tables that declare the same keys find the same offences. -/
theorem Clause.offencesAll_congr {t t' : Placeholders}
    (hnames : t.undeclaredName = t'.undeclaredName)
    (hvalues : t.undeclaredValue = t'.undeclaredValue) :
    ∀ cs : List KeyedClause, Clause.offencesAll t cs = Clause.offencesAll t' cs
  | [] => rfl
  | (_, p) :: rest => by
    rw [Clause.offencesAll, Clause.offencesAll, Predicate.offences_congr hnames hvalues p,
      Clause.offencesAll_congr hnames hvalues rest]

end

/-! ## Lexemes -/

/-- Lexemes in parentheses, negated or not. -/
def groupedLexemes (negated : Bool) (body : List Lexeme) : List Lexeme :=
  if negated then .word "not" :: .blank :: .opening :: body ++ [.closing]
  else .opening :: body ++ [.closing]

/-- Keys with commas between them. -/
def listedLexemes (keys : List String) : List Lexeme :=
  [.comma, .blank].intercalate (keys.map fun key => [.word key])

mutual

def Predicate.lexemes : KeyedPredicate → List Lexeme
  | .basic column operator value => [.word column, .blank, .word operator.text, .blank, .word value]
  | .function f column (some value) comparison =>
    if f = .size then
      [.word f.text, .opening, .word column, .closing, .blank, .word comparison.text, .blank,
        .word value]
    else [.word f.text, .opening, .word column, .comma, .blank, .word value, .closing]
  | .function f column none _ => [.word f.text, .opening, .word column, .closing]
  | .between column low high negated =>
    groupedLexemes negated
      [.word column, .blank, .word "between", .blank, .word low, .blank, .word "and", .blank,
        .word high]
  | .membership column values negated =>
    groupedLexemes negated
      (.word column :: .blank :: .word "in" :: .blank :: .opening :: listedLexemes values
        ++ [.closing])
  | .nested clauses => .opening :: Clause.lexemesAll clauses ++ [.closing]
  | .unsupported _ _ => []

def Clause.lexemesAll : List KeyedClause → List Lexeme
  | [] => []
  | (_, p) :: rest => p.lexemes ++ Clause.lexemesFollowing rest

def Clause.lexemesFollowing : List KeyedClause → List Lexeme
  | [] => []
  | (connector, p) :: rest =>
    .blank :: .word connector.text :: .blank :: p.lexemes ++ Clause.lexemesFollowing rest

end

namespace Condition

/-- Parentheses around a text are the text of the lexemes between parentheses. -/
theorem parenthesized_textOf (body : List Lexeme) :
    parenthesized (textOf body) = textOf (.opening :: body ++ [.closing]) := by
  simp [parenthesized, textOf, textOf_append, Lexeme.text, String.append_assoc]

/-- A group is written as the text of its lexemes, negated or not. -/
theorem grouped_textOf (negated : Bool) (body : List Lexeme) :
    grouped negated (textOf body) = textOf (groupedLexemes negated body) := by
  cases negated with
  | true =>
    show "not " ++ parenthesized (textOf body) = _
    rw [parenthesized_textOf]
    rfl
  | false => exact parenthesized_textOf body

/-- A list of keys is written as the text of its lexemes. -/
theorem intercalate_textOf (keys : List String) :
    ", ".intercalate keys = textOf (listedLexemes keys) := by
  have hword : (textOf ∘ fun key : String => [Lexeme.word key]) = id := by
    funext key
    simp [textOf, Lexeme.text]
  rw [listedLexemes, Lexeme.textOf_intercalate, List.map_map, hword, List.map_id]
  rfl

/-! ## What is written -/

section

variable (t : Placeholders) (column : String)

/-- A comparison is written as its lexemes, or the first key that is not declared is reported: the
column, then the value. -/
theorem writeBasic_eq (operator : Comparison) (value : String) :
    writeBasic t column operator value
      = report (t.undeclaredName column ++ t.undeclaredValue value)
          (textOf (Predicate.basic column operator value).lexemes) := by
  have htext : column ++ " " ++ operator.text ++ " " ++ value
      = textOf (Predicate.basic column operator value).lexemes := by
    simp [Predicate.lexemes, textOf, Lexeme.text, String.append_assoc]
  rw [writeBasic, t.declaredName_eq, t.declaredValue_eq, ← htext]
  exact report_bind report_bind_pure

/-- A function is written as its lexemes. Without its value it is a fault, which is found after the
column has been looked up. -/
theorem writeFunction_eq (f : ConditionFunction) (value : Option String)
    (comparison : Comparison) :
    writeFunction t f column value comparison
      = report ((Predicate.function f column value comparison).offences t)
          (textOf (Predicate.function f column value comparison).lexemes) := by
  rw [writeFunction, t.declaredName_eq]
  cases value with
  | none =>
    refine report_bind ?_
    by_cases h : f.arity = 0
    · simp [h, Predicate.lexemes, textOf, Lexeme.text, parenthesized, String.append_assoc]
      rfl
    · simp only [h, if_false]
      rfl
  | some value =>
    rw [Predicate.offences]
    refine report_bind ?_
    simp only [t.declaredValue_eq]
    -- a size is compared outside of its parentheses, every other function inside
    by_cases h : f = .size
    · simp only [h, if_true, Predicate.lexemes]
      rw [report_bind_pure]
      refine congrArg (report _) (String.toList_inj.1 ?_)
      simp [textOf, Lexeme.text, parenthesized]
    · simp only [h, if_false, Predicate.lexemes]
      rw [report_bind_pure]
      refine congrArg (report _) (String.toList_inj.1 ?_)
      simp [textOf, Lexeme.text, parenthesized]

/-- A range is written as its lexemes, or reports its column, its lower bound or its upper one. -/
theorem writeBetween_eq (low high : String) (negated : Bool) :
    writeBetween t column low high negated
      = report (t.undeclaredName column ++ (t.undeclaredValue low ++ t.undeclaredValue high))
          (textOf (Predicate.between column low high negated).lexemes) := by
  have htext : column ++ " between " ++ low ++ " and " ++ high
      = textOf [.word column, .blank, .word "between", .blank, .word low, .blank, .word "and",
          .blank, .word high] := by
    refine String.toList_inj.1 ?_
    simp [textOf, Lexeme.text]
  rw [writeBetween, t.declaredName_eq, t.declaredValue_eq, t.declaredValue_eq, Predicate.lexemes,
    ← grouped_textOf, ← htext]
  exact report_bind (report_bind report_bind_pure)

/-- A membership is written as its lexemes. It reports its values before its column, and having none
before everything else. -/
theorem writeMembership_eq (values : List String) (negated : Bool) :
    writeMembership t column values negated
      = report ((Predicate.membership column values negated).offences t)
          (textOf (Predicate.membership column values negated).lexemes) := by
  rw [writeMembership, Predicate.offences]
  by_cases h : values.isEmpty
  · rw [if_pos h, if_pos h]
    rfl
  · have htext : column ++ " in " ++ parenthesized (textOf (listedLexemes values))
        = textOf (.word column :: .blank :: .word "in" :: .blank :: .opening
            :: listedLexemes values ++ [.closing]) := by
      refine String.toList_inj.1 ?_
      simp [parenthesized_textOf, textOf, textOf_append, Lexeme.text]
    -- the values are looked up before the column
    rw [if_neg h, if_neg h, t.declaredName_eq, t.declaredValues_eq, Predicate.lexemes,
      ← grouped_textOf, ← htext, ← intercalate_textOf]
    exact report_bind report_bind_pure

mutual

/-- A predicate is written as its lexemes, or its first offence is reported. -/
theorem writePredicate_eq :
    ∀ p : KeyedPredicate, writePredicate t p = report (p.offences t) (textOf p.lexemes)
  | .basic column operator value => writeBasic_eq t column operator value
  | .function f column value comparison => writeFunction_eq t column f value comparison
  | .between column low high negated => writeBetween_eq t column low high negated
  | .membership column values negated => writeMembership_eq t column values negated
  | .nested clauses => by
    rw [writePredicate, writeClauses_eq clauses, report_map, parenthesized_textOf]
    rfl
  | .unsupported _ _ => rfl

/-- **What is written** of clauses is the first offence, or else the text of their lexemes. -/
theorem writeClauses_eq : ∀ cs : List KeyedClause,
    writeClauses t cs = report (Clause.offencesAll t cs) (textOf (Clause.lexemesAll cs))
  | [] => rfl
  | (_, p) :: rest => by
    rw [writeClauses, writePredicate_eq p, writeFollowing_eq rest, Clause.offencesAll,
      Clause.lexemesAll, textOf_append]
    exact report_bind report_bind_pure

/-- The clauses behind the first one are written each behind its connector. -/
theorem writeFollowing_eq : ∀ cs : List KeyedClause,
    writeFollowing t cs = report (Clause.offencesAll t cs) (textOf (Clause.lexemesFollowing cs))
  | [] => rfl
  | (connector, p) :: rest => by
    have htext : " " ++ connector.text ++ " " ++ textOf p.lexemes
          ++ textOf (Clause.lexemesFollowing rest)
        = textOf (Clause.lexemesFollowing ((connector, p) :: rest)) := by
      simp [Clause.lexemesFollowing, textOf, textOf_append, Lexeme.text, String.append_assoc]
    rw [writeFollowing, writePredicate_eq p, writeFollowing_eq rest, Clause.offencesAll, ← htext]
    exact report_bind report_bind_pure

end

end

/-- Tables that declare the same keys write the same expressions. -/
theorem expression_congr {t t' : Placeholders} (hnames : t.undeclaredName = t'.undeclaredName)
    (hvalues : t.undeclaredValue = t'.undeclaredValue) (cs : List KeyedClause) :
    expression t cs = expression t' cs := by
  rw [expression, expression, writeClauses_eq, writeClauses_eq,
    Clause.offencesAll_congr hnames hvalues]

/-- Clauses that are written have no offence, and are written as their lexemes. -/
theorem writeClauses_eq_ok {t : Placeholders} {cs : List KeyedClause} {s : String} :
    writeClauses t cs = .ok s
      ↔ Clause.offencesAll t cs = [] ∧ textOf (Clause.lexemesAll cs) = s := by
  rw [writeClauses_eq, report_eq_ok]

end Condition

end TableQuery
