import TableQuery.Proofs.Expression.Update

/-!
# Entries of an update

The expression of an update is read back here (`Update.read?`). Its words are gathered into entries,
which end at a comma, and the entries into groups, which begin with a keyword; then every key is
looked up in the table.

* **`gather_entry`**, **`gather_keyword`**, **`gather_lexemes`** — an entry, a group, and all groups
  are gathered as they were written.
* **`readEntry?_words`**, **`readGroups?_under`** — an entry, and the entries of a group, are read
  as the changes that they were written for, if the keys are bound as they were then.
-/

namespace TableQuery

open KeySupply (IsKey)

namespace Update

/-! ## Gathering words -/

/-- The words that open a group. -/
def keywords : List String := ["set", "remove"]

/-- What lexemes hold: the words of the entry that they begin in, the entries that follow in the
same group, and the groups after it, each with its keyword. -/
structure Gathered where
  words : List String
  entries : List (List String)
  groups : List (String × List (List String))

/-- Gathers from the right. A comma ends an entry, and a keyword opens the group of the entries
behind it. -/
def gather : List Lexeme → Gathered
  | [] => ⟨[], [], []⟩
  | .word text :: rest =>
    let g := gather rest
    if text ∈ keywords then ⟨[], [], (text, g.words :: g.entries) :: g.groups⟩
    else { g with words := text :: g.words }
  | .comma :: rest =>
    let g := gather rest
    { g with words := [], entries := g.words :: g.entries }
  | .blank :: rest => gather rest
  | .opening :: rest => gather rest
  | .closing :: rest => gather rest

/-- Entries under a keyword; nothing if there are none. -/
def under {α : Type} (keyword : String) (entries : List α) : List (String × List α) :=
  if entries.isEmpty then [] else [(keyword, entries)]

/-- Blanks only part words. -/
theorem gather_blank (x : List Lexeme) : gather (.blank :: x) = gather x := rfl

/-- A comma ends the entry before it, so the words behind it are an entry of their own. -/
theorem gather_comma (x : List Lexeme) :
    gather (.comma :: x)
      = { gather x with words := [], entries := (gather x).words :: (gather x).entries } := rfl

/-- A word that is no keyword belongs to the entry that it stands in. -/
theorem gather_word {text : String} (h : text ∉ keywords) (x : List Lexeme) :
    gather (.word text :: x) = { gather x with words := text :: (gather x).words } := by
  show (if text ∈ keywords then _ else _) = _
  rw [if_neg h]

/-- A keyword begins a group: the entries behind it, up to the next keyword, are its own. -/
theorem gather_opens {text : String} (h : text ∈ keywords) (x : List Lexeme) :
    gather (.word text :: x)
      = ⟨[], [], (text, (gather x).words :: (gather x).entries) :: (gather x).groups⟩ := by
  show (if text ∈ keywords then _ else _) = _
  rw [if_pos h]

/-- What opens with a key is no keyword. -/
theorem not_mem_keywords {sigil : Char} {key : String} (h : IsKey sigil key) (hs : sigil ≠ 's')
    (hr : sigil ≠ 'r') : key ∉ keywords := by
  have hhead := h.head?
  intro hmem
  rcases List.mem_cons.1 hmem with rfl | hmem
  · exact hs (Option.some.inj hhead).symm
  · rw [List.mem_singleton] at hmem
    subst hmem
    exact hr (Option.some.inj hhead).symm

end Update

namespace Change

/-- The words of a change. -/
def words : KeyedChange → List String
  | .set column value => [column, "=", value]
  | .increment column amount => [column, "=", column, "+", amount]
  | .decrement column amount => [column, "=", column, "-", amount]
  | .remove column => [column]

/-- None of the keys of a change opens a group. -/
structure Plain (c : KeyedChange) : Prop where
  column : c.column ∉ Update.keywords
  value : ∀ v ∈ c.value?, v ∉ Update.keywords

/-- No word of a change opens a group: the signs between its keys are no keywords either. -/
theorem Plain.words {c : KeyedChange} (h : c.Plain) : ∀ w ∈ c.words, w ∉ Update.keywords := by
  have hequal : "=" ∉ Update.keywords := by decide
  have hplus : "+" ∉ Update.keywords := by decide
  have hminus : "-" ∉ Update.keywords := by decide
  obtain ⟨hcolumn, hvalue⟩ := h
  cases c with
  | set column value => simpa [Change.words] using ⟨hcolumn, hequal, hvalue value rfl⟩
  | increment column amount =>
    simpa [Change.words] using ⟨hcolumn, hequal, hcolumn, hplus, hvalue amount rfl⟩
  | decrement column amount =>
    simpa [Change.words] using ⟨hcolumn, hequal, hcolumn, hminus, hvalue amount rfl⟩
  | remove column => exact List.forall_mem_singleton.2 hcolumn

end Change

namespace Update

/-- Words with blanks between them are gathered into one entry, before what comes after them. -/
theorem gather_words {ws : List String} (h : ∀ w ∈ ws, w ∉ keywords) (x : List Lexeme) :
    gather ((ws.map Lexeme.word).intersperse .blank ++ x)
      = { gather x with words := ws ++ (gather x).words } := by
  induction ws with
  | nil => rfl
  | cons w rest ih =>
    obtain ⟨hw, hrest⟩ := List.forall_mem_cons.1 h
    cases rest with
    | nil => exact gather_word hw x
    | cons v rest =>
      show gather (.word w :: .blank
        :: (((v :: rest).map Lexeme.word).intersperse .blank ++ x)) = _
      rw [gather_word hw, gather_blank, ih hrest]
      rfl

/-- An entry is gathered before what comes after it. -/
theorem gather_entry {c : KeyedChange} (h : c.Plain) (x : List Lexeme) :
    gather (c.lexemes ++ x) = { gather x with words := c.words ++ (gather x).words } := by
  have hlexemes : c.lexemes = (c.words.map Lexeme.word).intersperse .blank := by
    cases c <;> rfl
  rw [hlexemes, gather_words h.words]

/-- Entries with commas between them are gathered one by one, up to the end of their group. -/
theorem gather_entries {c : KeyedChange} {cs : List KeyedChange} (h : ∀ d ∈ c :: cs, d.Plain)
    {x : List Lexeme} {groups : List (String × List (List String))}
    (hx : gather x = ⟨[], [], groups⟩) :
    gather ([.comma, .blank].intercalate ((c :: cs).map Change.lexemes) ++ x)
      = ⟨c.words, cs.map Change.words, groups⟩ := by
  induction cs generalizing c with
  | nil =>
    rw [List.map_singleton, List.intercalate_singleton, gather_entry (h c List.mem_cons_self), hx,
      List.append_nil]
    rfl
  | cons d rest ih =>
    have hrest := ih fun e he => h e (List.mem_cons_of_mem c he)
    rw [List.map_cons, List.map_cons, List.intercalate_cons_cons, List.append_assoc,
      List.append_assoc, gather_entry (h c List.mem_cons_self), ← List.map_cons, List.cons_append,
      List.cons_append, List.nil_append, gather_comma, gather_blank, hrest, List.append_nil]
    rfl

/-- A keyword takes the entries behind it. -/
theorem gather_keyword {keyword : String} (hkeyword : keyword ∈ keywords) {c : KeyedChange}
    {cs : List KeyedChange} (h : ∀ d ∈ c :: cs, d.Plain) {x : List Lexeme}
    {groups : List (String × List (List String))} (hx : gather x = ⟨[], [], groups⟩) :
    gather ((.word keyword :: .blank
        :: [.comma, .blank].intercalate ((c :: cs).map Change.lexemes)) ++ x)
      = ⟨[], [], (keyword, (c :: cs).map Change.words) :: groups⟩ := by
  rw [List.cons_append, List.cons_append, gather_opens hkeyword, gather_blank, gather_entries h hx]
  rfl

/-- A group may be the only one. -/
theorem gather_alone {keyword : String} (hkeyword : keyword ∈ keywords) {c : KeyedChange}
    {cs : List KeyedChange} (h : ∀ d ∈ c :: cs, d.Plain) :
    gather (([.blank] : List Lexeme).intercalate [.word keyword :: .blank
        :: [.comma, .blank].intercalate ((c :: cs).map Change.lexemes)])
      = ⟨[], [], [(keyword, (c :: cs).map Change.words)]⟩ := by
  have hend : gather [] = ⟨[], [], []⟩ := rfl
  have hgroup := gather_keyword hkeyword h hend
  rw [List.append_nil] at hgroup
  rw [List.intercalate_singleton]
  exact hgroup

/-- **The groups of an update** are gathered as they were written. -/
theorem gather_lexemes {changes : List KeyedChange} (h : ∀ c ∈ changes, c.Plain) :
    gather (lexemes changes)
      = ⟨[], [], under "set" ((sets changes).map Change.words)
          ++ under "remove" ((removals changes).map Change.words)⟩ := by
  have hset : "set" ∈ keywords := by decide
  have hremove : "remove" ∈ keywords := by decide
  have hsets : ∀ c ∈ sets changes, c.Plain := fun c hc => h c (List.mem_filter.1 hc).1
  have hremovals : ∀ c ∈ removals changes, c.Plain := fun c hc => h c (List.mem_filter.1 hc).1
  unfold lexemes groups
  cases hs : sets changes with
  | nil =>
    cases hr : removals changes with
    | nil => rfl
    | cons c cs =>
      rw [hr] at hremovals
      exact gather_alone hremove hremovals
  | cons c cs =>
    rw [hs] at hsets
    cases hr : removals changes with
    | nil => exact gather_alone hset hsets
    | cons d ds =>
      rw [hr] at hremovals
      have hlater := gather_alone hremove hremovals
      rw [List.intercalate_singleton] at hlater
      -- the blank between the groups belongs to neither
      show gather (([.blank] : List Lexeme).intercalate [_, _]) = _
      rw [List.intercalate_cons_cons, List.intercalate_singleton, List.append_assoc]
      exact gather_keyword hset hsets hlater

/-! ## Looking up keys -/

/-- The change that the words of an entry tell, with the columns and values that their keys are
bound to. A counter names its column twice. -/
def readEntry? (t : Placeholders) : List String → Option (Change String Value)
  | [column] => do return .remove (← t.names.get? column)
  | [column, sign, value] =>
    if sign = "=" then do return .set (← t.names.get? column) (← t.values.get? value) else none
  | [column, sign, counter, operator, amount] =>
    if sign = "=" ∧ counter = column then
      if operator = "+" then do return .increment (← t.names.get? column) (← t.values.get? amount)
      else if operator = "-" then do
        return .decrement (← t.names.get? column) (← t.values.get? amount)
      else none
    else none
  | _ => none

def readEntries? (t : Placeholders) : List (List String) → Option (List (Change String Value))
  | [] => some []
  | words :: rest => do return (← readEntry? t words) :: (← readEntries? t rest)

def readGroups? (t : Placeholders) :
    List (String × List (List String)) → Option (List (String × List (Change String Value)))
  | [] => some []
  | (keyword, entries) :: rest => do
    return (keyword, ← readEntries? t entries) :: (← readGroups? t rest)

/-- What the expression of an update says, group by group; nothing if it is not one of groups. -/
def read? (t : Placeholders) (expression : String) :
    Option (List (String × List (Change String Value))) :=
  let g := gather (Lexeme.ofText expression)
  if g.words = [] ∧ g.entries = [] then readGroups? t g.groups else none

section

variable {t : Placeholders} {f : String → String} {g : Value → String}

/-- **An entry is read** as the change that it was written for, if its keys are bound as they were
then. -/
theorem readEntry?_words {c : Change String Value}
    (hcolumn : t.names.get? (f c.column) = some c.column)
    (hvalue : ∀ v ∈ c.value?, t.values.get? (g v) = some v) :
    readEntry? t (c.map f g).words = some c := by
  cases c with
  | set column value =>
    have hcolumn : t.names.get? (f column) = some column := hcolumn
    have hvalue : t.values.get? (g value) = some value := hvalue value rfl
    simp [Change.map, Change.words, readEntry?, hcolumn, hvalue]
  | increment column amount =>
    have hcolumn : t.names.get? (f column) = some column := hcolumn
    have hamount : t.values.get? (g amount) = some amount := hvalue amount rfl
    simp [Change.map, Change.words, readEntry?, hcolumn, hamount]
  | decrement column amount =>
    have hcolumn : t.names.get? (f column) = some column := hcolumn
    have hamount : t.values.get? (g amount) = some amount := hvalue amount rfl
    simp [Change.map, Change.words, readEntry?, hcolumn, hamount]
  | remove column =>
    have hcolumn : t.names.get? (f column) = some column := hcolumn
    simp [Change.map, Change.words, readEntry?, hcolumn]

/-- The keys of changes are bound to what they stand for. -/
def Bound (t : Placeholders) (f : String → String) (g : Value → String)
    (cs : List (Change String Value)) : Prop :=
  ∀ c ∈ cs, t.names.get? (f c.column) = some c.column
    ∧ ∀ v ∈ c.value?, t.values.get? (g v) = some v

/-- Some of the changes are bound if all are. The groups of an expression are such selections. -/
theorem Bound.filter {cs : List (Change String Value)} (h : Bound t f g cs)
    (p : Change String Value → Bool) : Bound t f g (cs.filter p) :=
  fun c hc => h c (List.mem_filter.1 hc).1

/-- The entries of a group are read as the changes that they were written for. -/
theorem readEntries?_words {cs : List (Change String Value)} (h : Bound t f g cs) :
    readEntries? t ((cs.map (Change.map f g)).map Change.words) = some cs := by
  induction cs with
  | nil => rfl
  | cons c rest ih =>
    -- each entry is looked up by itself, since the table does not change between them
    have hfirst := readEntry?_words (h c List.mem_cons_self).1 (h c List.mem_cons_self).2
    have hrest := ih fun d hd => h d (List.mem_cons_of_mem c hd)
    rw [List.map_cons, List.map_cons, readEntries?, hfirst, hrest]
    rfl

/-- A group is read as its changes, in front of the groups behind it. No group is written for no
changes, and none is read. -/
theorem readGroups?_under (keyword : String) {cs : List (Change String Value)} (h : Bound t f g cs)
    {groups : List (String × List (List String))}
    {later : List (String × List (Change String Value))}
    (hlater : readGroups? t groups = some later) :
    readGroups? t (under keyword ((cs.map (Change.map f g)).map Change.words) ++ groups)
      = some (under keyword cs ++ later) := by
  cases cs with
  | nil => exact hlater
  | cons c rest =>
    -- the keyword is not looked up: it is taken over as it stands
    have hentries := readEntries?_words h
    show readGroups? t ((keyword, ((c :: rest).map (Change.map f g)).map Change.words) :: groups)
      = _
    rw [readGroups?, hentries, hlater]
    rfl

end

end Update

end TableQuery
