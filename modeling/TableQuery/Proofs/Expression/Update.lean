import TableQuery.Proofs.Expression.Keys
import TableQuery.Proofs.Updates

/-!
# Written updates

An update is written as a condition is: the first offence is reported, or else there is a text,
which is that of lexemes. Changes that set something come before those that remove, each group under
its keyword.

* **`expression_eq`** — what is written of changes; nothing is only written where there are none.
* **`apart_lexemes`**, **`mem_keys_names`**, **`mem_keys_values`** — no two words touch, and the keys
  that occur are those of the changes.
* **`expression_keys`** — hence so are those in the expression of an update, if there is one.
-/

namespace TableQuery

open Lexeme (textOf textOf_append Apart IsWord keys Plain keys_plain keys_name keys_value)
open KeySupply (IsKey)

/-! ## One change -/

namespace Change

/-- The change is written under the keyword for removals. -/
def removes {ν ω : Type} : Change ν ω → Bool
  | .remove _ => true
  | _ => false

/-- The key of the column is looked up first, then that of the value, if there is one. -/
def offences (t : Placeholders) (c : KeyedChange) : List RequestError :=
  t.undeclaredName c.column ++ c.value?.elim [] t.undeclaredValue

/-- A change without an offence has declared keys only. -/
theorem declared_of_offences {t : Placeholders} {c : KeyedChange} (h : c.offences t = []) :
    t.declaresName c.column = true ∧ ∀ v ∈ c.value?, t.declaresValue v = true := by
  rw [offences, List.append_eq_nil_iff, Placeholders.undeclaredName_eq_nil] at h
  obtain ⟨hcolumn, hvalue⟩ := h
  refine ⟨hcolumn, fun v hv => ?_⟩
  rw [Option.mem_def.1 hv] at hvalue
  exact Placeholders.undeclaredValue_eq_nil.1 hvalue

def lexemes : KeyedChange → List Lexeme
  | .set column value => [.word column, .blank, .word "=", .blank, .word value]
  | .increment column amount =>
    [.word column, .blank, .word "=", .blank, .word column, .blank, .word "+", .blank, .word amount]
  | .decrement column amount =>
    [.word column, .blank, .word "=", .blank, .word column, .blank, .word "-", .blank, .word amount]
  | .remove column => [.word column]

/-- No two words touch in a change, nor its last word and what follows it. -/
theorem apart_lexemes {c : KeyedChange} {x : List Lexeme} (hcolumn : IsWord c.column)
    (hvalue : ∀ v ∈ c.value?, IsWord v) (hx : Apart true x) : Apart false (c.lexemes ++ x) := by
  have hequal : IsWord "=" := by decide
  have hplus : IsWord "+" := by decide
  have hminus : IsWord "-" := by decide
  cases c with
  | set column value => exact ⟨rfl, hcolumn, rfl, hequal, rfl, hvalue value rfl, hx⟩
  | increment column amount =>
    exact ⟨rfl, hcolumn, rfl, hequal, rfl, hcolumn, rfl, hplus, rfl, hvalue amount rfl, hx⟩
  | decrement column amount =>
    exact ⟨rfl, hcolumn, rfl, hequal, rfl, hcolumn, rfl, hminus, rfl, hvalue amount rfl, hx⟩
  | remove column => exact ⟨rfl, hcolumn, hx⟩

/-- A counter names its column twice, so the keys are told as a set. -/
theorem mem_keys_lexemes {c : KeyedChange} (hcolumn : IsKey nameSigil c.column)
    (hvalue : ∀ v ∈ c.value?, IsKey valueSigil v) (key : String) :
    (key ∈ keys nameSigil c.lexemes ↔ key = c.column)
      ∧ (key ∈ keys valueSigil c.lexemes ↔ key ∈ c.value?.toList) := by
  have hequal := keys_plain (show Plain "=" by decide)
  have hplus := keys_plain (show Plain "+" by decide)
  have hminus := keys_plain (show Plain "-" by decide)
  cases c with
  | set column value =>
    have hname := keys_name (show IsKey nameSigil column from hcolumn)
    have hkey := keys_value (hvalue value rfl)
    simp [lexemes, Change.column, value?, hequal, hname, hkey]
  | increment column amount =>
    have hname := keys_name (show IsKey nameSigil column from hcolumn)
    have hkey := keys_value (hvalue amount rfl)
    simp [lexemes, Change.column, value?, hequal, hplus, hname, hkey]
  | decrement column amount =>
    have hname := keys_name (show IsKey nameSigil column from hcolumn)
    have hkey := keys_value (hvalue amount rfl)
    simp [lexemes, Change.column, value?, hequal, hminus, hname, hkey]
  | remove column =>
    have hname := keys_name (show IsKey nameSigil column from hcolumn)
    simp [lexemes, Change.column, value?, hname]

end Change

namespace Update

/-- The keys of a column and of a value are looked up before the text is put together. -/
theorem declared_bind (t : Placeholders) (column value : String)
    (entry : String → String → String ⊕ String) :
    (do
      let column ← t.declaredName column
      let value ← t.declaredValue value
      return entry column value)
      = report (t.undeclaredName column ++ t.undeclaredValue value) (entry column value) := by
  rw [t.declaredName_eq, t.declaredValue_eq]
  refine report_bind ?_
  rw [report_bind_pure]

/-- A change is written as its lexemes, and goes to the group that it belongs to. -/
theorem entry_eq (t : Placeholders) (c : KeyedChange) :
    entry t c = report (c.offences t)
      (if c.removes then .inr (textOf c.lexemes) else .inl (textOf c.lexemes)) := by
  cases c with
  | set column value =>
    -- the text of the entry is that of its lexemes; every kind of change has a shape of its own
    have htext : column ++ " = " ++ value = textOf (Change.set column value).lexemes := by
      refine String.toList_inj.1 ?_
      simp [Change.lexemes, textOf, Lexeme.text]
    rw [entry, declared_bind t column value fun column value => .inl (column ++ " = " ++ value),
      htext]
    rfl
  | increment column amount =>
    have htext : column ++ " = " ++ column ++ " + " ++ amount
        = textOf (Change.increment column amount).lexemes := by
      refine String.toList_inj.1 ?_
      simp [Change.lexemes, textOf, Lexeme.text]
    rw [entry, declared_bind t column amount fun column amount =>
      .inl (column ++ " = " ++ column ++ " + " ++ amount), htext]
    rfl
  | decrement column amount =>
    have htext : column ++ " = " ++ column ++ " - " ++ amount
        = textOf (Change.decrement column amount).lexemes := by
      refine String.toList_inj.1 ?_
      simp [Change.lexemes, textOf, Lexeme.text]
    rw [entry, declared_bind t column amount fun column amount =>
      .inl (column ++ " = " ++ column ++ " - " ++ amount), htext]
    rfl
  | remove column =>
    have htext : column = textOf (Change.remove column : KeyedChange).lexemes := by
      simp [Change.lexemes, textOf, Lexeme.text]
    have hoffences : (Change.remove column : KeyedChange).offences t = t.undeclaredName column :=
      List.append_nil _
    rw [entry, t.declaredName_eq, report_bind_pure, hoffences]
    show report (t.undeclaredName column) (Sum.inr column) = report _ (Sum.inr _)
    rw [← htext]

/-! ## Changes under their keywords -/

/-- The changes that set something, and those that remove, each in their order. -/
def sets (changes : List KeyedChange) : List KeyedChange := changes.filter fun c => !c.removes

def removals (changes : List KeyedChange) : List KeyedChange := changes.filter Change.removes

def offencesAll (t : Placeholders) (changes : List KeyedChange) : List RequestError :=
  changes.flatMap (Change.offences t)

/-- Changes have no offence but a key that is not declared. -/
theorem offencesAll_of_declared {t : Placeholders} {changes : List KeyedChange}
    (h : t.Declares (changes.map Change.column) (changes.flatMap fun c => c.value?.toList)) :
    offencesAll t changes = [] := by
  refine List.flatMap_eq_nil_iff.2 fun c hc => ?_
  have hcolumn := h.column c.column (List.mem_map_of_mem hc)
  rw [Change.offences, Placeholders.undeclaredName_eq_nil.2 hcolumn, List.nil_append]
  cases hv : c.value? with
  | none => rfl
  | some v =>
    refine Placeholders.undeclaredValue_eq_nil.2 (h.value v ?_)
    exact List.mem_flatMap.2 ⟨c, hc, by simp [hv]⟩

/-- Changes are written in one pass and sorted into the two groups, each in its order. -/
theorem split_eq (t : Placeholders) (changes : List KeyedChange) :
    split t changes = report (offencesAll t changes)
      (((sets changes).map Change.lexemes).map textOf,
        ((removals changes).map Change.lexemes).map textOf) := by
  induction changes with
  | nil => rfl
  | cons c rest ih =>
    have hoffences : offencesAll t (c :: rest) = c.offences t ++ offencesAll t rest := rfl
    rw [split, entry_eq, ih, hoffences]
    -- the offences of the first change come first, whichever group it goes to
    refine report_bind (report_bind_ok ?_)
    cases h : c.removes with
    | true =>
      simp [sets, removals, h]
      rfl
    | false =>
      simp [sets, removals, h]
      rfl

/-- Parts under their keyword; nothing if there are none. -/
def keywordLexemes (keyword : String) (parts : List (List Lexeme)) : List (List Lexeme) :=
  if parts.isEmpty then [] else [.word keyword :: .blank :: [.comma, .blank].intercalate parts]

/-- A group is written as the text of its lexemes, and no group as no text. -/
theorem underKeyword_textOf (keyword : String) (parts : List (List Lexeme)) :
    underKeyword keyword (parts.map textOf) = (keywordLexemes keyword parts).map textOf := by
  unfold underKeyword keywordLexemes
  cases parts with
  | nil => rfl
  | cons part rest =>
    have hseparator : textOf [.comma, .blank] = ", " := rfl
    show [keyword ++ " " ++ ", ".intercalate ((part :: rest).map textOf)] = [textOf _]
    rw [textOf, textOf, Lexeme.textOf_intercalate, hseparator, ← String.append_assoc]
    rfl

/-- The groups of an update: what is set, then what is removed. -/
def groups (changes : List KeyedChange) : List (List Lexeme) :=
  keywordLexemes "set" ((sets changes).map Change.lexemes)
    ++ keywordLexemes "remove" ((removals changes).map Change.lexemes)

def lexemes (changes : List KeyedChange) : List Lexeme := [.blank].intercalate (groups changes)

/-- Every change is in one of the groups. -/
theorem groups_eq_nil {changes : List KeyedChange} : groups changes = [] ↔ changes = [] := by
  cases changes with
  | nil => exact ⟨fun _ => rfl, fun _ => rfl⟩
  | cons c rest => cases h : c.removes <;> simp [groups, keywordLexemes, sets, removals, h]

/-- **What is written** of changes is the first offence, or else the text of their lexemes, if there
are any changes. -/
theorem expression_eq (t : Placeholders) (changes : List KeyedChange) :
    expression t changes = report (offencesAll t changes)
      (if changes.isEmpty then none else some (textOf (lexemes changes), .updatedNew)) := by
  rw [expression, split_eq]
  refine report_bind_ok ?_
  -- the texts under both keywords are those of the groups
  have hgroups : underKeyword "set" (((sets changes).map Change.lexemes).map textOf)
        ++ underKeyword "remove" (((removals changes).map Change.lexemes).map textOf)
      = (groups changes).map textOf := by
    rw [underKeyword_textOf, underKeyword_textOf, groups, List.map_append]
  simp only [hgroups]
  cases h : groups changes with
  | nil =>
    rw [groups_eq_nil.1 h]
    rfl
  | cons group rest =>
    have hne : changes.isEmpty = false := by
      cases changes with
      | nil => cases h
      | cons c changes => rfl
    have hblank : textOf [.blank] = " " := rfl
    rw [hne, lexemes, Lexeme.textOf_intercalate, hblank, h]
    rfl

/-- Tables that declare the same keys write the same update. -/
theorem expression_congr {t t' : Placeholders} (hnames : t.undeclaredName = t'.undeclaredName)
    (hvalues : t.undeclaredValue = t'.undeclaredValue) (changes : List KeyedChange) :
    expression t changes = expression t' changes := by
  have hoffences : Change.offences t = Change.offences t' := by
    funext c
    rw [Change.offences, Change.offences, hnames, hvalues]
  rw [expression_eq, expression_eq, offencesAll, offencesAll, hoffences]

/-! ## Words and keys of an update -/

/-- No two words touch in a group, its keyword included. -/
theorem apart_keywordLexemes {keyword : String} (hkeyword : IsWord keyword)
    {parts : List (List Lexeme)}
    (hparts : ∀ part ∈ parts, ∀ y, Apart true y → Apart false (part ++ y)) :
    ∀ group ∈ keywordLexemes keyword parts, ∀ y, Apart true y → Apart false (group ++ y) := by
  intro group hgroup y hy
  unfold keywordLexemes at hgroup
  split at hgroup
  · cases hgroup
  · rw [List.mem_singleton] at hgroup
    subst hgroup
    have hlist := @apart_intercalate [.comma, .blank] y parts (fun y hy => hy) hparts hy
    exact ⟨rfl, hkeyword, hlist⟩

/-- No two words touch in an update. -/
theorem apart_lexemes {changes : List KeyedChange} {x : List Lexeme}
    (hcolumns : ∀ c ∈ changes, IsWord c.column)
    (hvalues : ∀ c ∈ changes, ∀ v ∈ c.value?, IsWord v) (hx : Apart true x) :
    Apart false (lexemes changes ++ x) := by
  have hparts (p : KeyedChange → Bool) (part : List Lexeme)
      (hpart : part ∈ (changes.filter p).map Change.lexemes) (y : List Lexeme)
      (hy : Apart true y) : Apart false (part ++ y) := by
    obtain ⟨c, hc, rfl⟩ := List.mem_map.1 hpart
    have hmem := (List.mem_filter.1 hc).1
    exact Change.apart_lexemes (hcolumns c hmem) (hvalues c hmem) hy
  refine apart_intercalate (fun y hy => hy) (fun group hgroup => ?_) hx
  rcases List.mem_append.1 hgroup with hset | hremove
  · exact apart_keywordLexemes (by decide) (hparts _) group hset
  · exact apart_keywordLexemes (by decide) (hparts _) group hremove

/-- A keyword adds no keys to those of its group. -/
theorem keys_keywordLexemes {sigil : Char} {keyword : String}
    (hkeyword : ∀ ls, keys sigil (.word keyword :: ls) = keys sigil ls)
    (parts : List (List Lexeme)) :
    (keywordLexemes keyword parts).flatMap (keys sigil) = parts.flatMap (keys sigil) := by
  unfold keywordLexemes
  cases parts with
  | nil => rfl
  | cons part rest =>
    show keys sigil (.word keyword :: .blank :: _) ++ [] = _
    rw [hkeyword, Lexeme.keys_blank, Lexeme.keys_intercalate rfl, List.append_nil]

/-- Sorting the changes into groups neither drops a key nor adds one. -/
theorem mem_keys_lexemes {sigil : Char}
    (hset : ∀ ls, keys sigil (.word "set" :: ls) = keys sigil ls)
    (hremove : ∀ ls, keys sigil (.word "remove" :: ls) = keys sigil ls)
    {changes : List KeyedChange} {key : String} :
    key ∈ keys sigil (lexemes changes) ↔ ∃ c ∈ changes, key ∈ keys sigil c.lexemes := by
  rw [lexemes, Lexeme.keys_intercalate rfl, groups, List.flatMap_append,
    keys_keywordLexemes hset, keys_keywordLexemes hremove, List.mem_append, List.mem_flatMap,
    List.mem_flatMap]
  constructor
  · rintro (⟨part, hpart, hkey⟩ | ⟨part, hpart, hkey⟩)
    · obtain ⟨c, hc, rfl⟩ := List.mem_map.1 hpart
      exact ⟨c, (List.mem_filter.1 hc).1, hkey⟩
    · obtain ⟨c, hc, rfl⟩ := List.mem_map.1 hpart
      exact ⟨c, (List.mem_filter.1 hc).1, hkey⟩
  · -- every change is in the one group or in the other
    rintro ⟨c, hc, hkey⟩
    cases h : c.removes with
    | true =>
      exact .inr ⟨c.lexemes, List.mem_map_of_mem (List.mem_filter.2 ⟨hc, h⟩), hkey⟩
    | false =>
      exact .inl ⟨c.lexemes, List.mem_map_of_mem (List.mem_filter.2 ⟨hc, by simp [h]⟩), hkey⟩

section

variable {changes : List KeyedChange} (hcolumns : ∀ c ∈ changes, IsKey nameSigil c.column)
  (hvalues : ∀ c ∈ changes, ∀ v ∈ c.value?, IsKey valueSigil v)

include hcolumns hvalues

/-- The name keys in the text of an update are the columns of its changes. -/
theorem mem_keys_names (key : String) :
    key ∈ keys nameSigil (lexemes changes) ↔ key ∈ changes.map Change.column := by
  rw [mem_keys_lexemes (keys_plain (by decide)).1 (keys_plain (by decide)).1, List.mem_map]
  constructor
  · rintro ⟨c, hc, hkey⟩
    exact ⟨c, hc, ((Change.mem_keys_lexemes (hcolumns c hc) (hvalues c hc) key).1.1 hkey).symm⟩
  · rintro ⟨c, hc, rfl⟩
    exact ⟨c, hc, (Change.mem_keys_lexemes (hcolumns c hc) (hvalues c hc) _).1.2 rfl⟩

/-- The value keys in the text of an update are the values of its changes. -/
theorem mem_keys_values (key : String) :
    key ∈ keys valueSigil (lexemes changes) ↔ key ∈ changes.flatMap fun c => c.value?.toList := by
  rw [mem_keys_lexemes (keys_plain (by decide)).2 (keys_plain (by decide)).2, List.mem_flatMap]
  constructor
  · rintro ⟨c, hc, hkey⟩
    exact ⟨c, hc, (Change.mem_keys_lexemes (hcolumns c hc) (hvalues c hc) key).2.1 hkey⟩
  · rintro ⟨c, hc, hkey⟩
    exact ⟨c, hc, (Change.mem_keys_lexemes (hcolumns c hc) (hvalues c hc) key).2.2 hkey⟩

end

/-! ## Updates that are written -/

/-- **The keys in the expression of an update** are those of its changes. -/
theorem expression_keys {t : Placeholders} (numbered : t.Numbered) {changes : List KeyedChange}
    {u : Option (String × Wire.ReturnValue)} (h : expression t changes = .ok u) (key : String) :
    (key ∈ (u.map (·.1)).toList.flatMap (Lexeme.keysIn nameSigil) ↔ key ∈ changes.map Change.column)
      ∧ (key ∈ (u.map (·.1)).toList.flatMap (Lexeme.keysIn valueSigil)
        ↔ key ∈ changes.flatMap fun c => c.value?.toList) := by
  rw [expression_eq, report_eq_ok] at h
  obtain ⟨hoffences, hu⟩ := h
  -- a change without offences has declared keys, and declared keys are words
  have hdeclared (c : KeyedChange) (hc : c ∈ changes) :=
    Change.declared_of_offences (List.flatMap_eq_nil_iff.1 hoffences c hc)
  have hcolumns (c : KeyedChange) (hc : c ∈ changes) : IsKey nameSigil c.column :=
    numbered.isKey_name (hdeclared c hc).1
  have hvalues (c : KeyedChange) (hc : c ∈ changes) (v : String) (hv : v ∈ c.value?) :
      IsKey valueSigil v :=
    numbered.isKey_value ((hdeclared c hc).2 v hv)
  cases changes with
  | nil =>
    cases hu
    exact ⟨Iff.rfl, Iff.rfl⟩
  | cons c rest =>
    have hu' : u = some (textOf (lexemes (c :: rest)), .updatedNew) := hu.symm
    have hapart := apart_lexemes (x := [])
      (fun c hc => (hcolumns c hc).isWord (by decide))
      (fun c hc v hv => (hvalues c hc v hv).isWord (by decide)) trivial
    rw [List.append_nil] at hapart
    simp only [hu', Option.map_some, Option.toList_some, List.flatMap_singleton,
      Lexeme.keysIn_textOf hapart]
    exact ⟨mem_keys_names hcolumns hvalues key, mem_keys_values hcolumns hvalues key⟩

end Update

end TableQuery
