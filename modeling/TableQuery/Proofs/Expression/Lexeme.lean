import TableQuery.Proofs.Numbering

/-!
# Lexemes of an expression

An expression is a string of words, blanks, commas and parentheses. `Lexeme.cut` takes such a string
apart: a word is a longest run of characters that are none of the others. Keys of placeholders are
words that begin with their sigil, so the keys that occur in an expression are found among its
lexemes (`Lexeme.keys`).

* **`cut_textOf`** — cutting the text of lexemes gives the lexemes back, if no two words touch.
* **`textOf_inj`** — hence such lexemes are told apart by their text.
* **`IsKey.isWord`** — every key with a number is one word, however long it is.
-/

namespace TableQuery

inductive Lexeme where
  | word (text : String)
  | blank
  | comma
  | opening
  | closing
  deriving DecidableEq

namespace Lexeme

/-! ## From lexemes to text -/

def text : Lexeme → String
  | .word text => text
  | .blank => " "
  | .comma => ","
  | .opening => "("
  | .closing => ")"

/-- The text of lexemes, one after the other. -/
def textOf : List Lexeme → String
  | [] => ""
  | l :: rest => l.text ++ textOf rest

theorem textOf_append (ls later : List Lexeme) : textOf (ls ++ later) = textOf ls ++ textOf later := by
  induction ls with
  | nil => simp [textOf]
  | cons l rest ih => simp only [List.cons_append, textOf, ih, String.append_assoc]

/-- Texts that are joined by a separator are the text of lexemes that are joined by its lexemes. -/
theorem textOf_intercalate (separator : List Lexeme) (parts : List (List Lexeme)) :
    textOf (separator.intercalate parts)
      = (textOf separator).intercalate (parts.map textOf) := by
  induction parts with
  | nil => simp [textOf]
  | cons part rest ih =>
    cases rest with
    | nil => simp
    | cons next rest =>
      simp only [List.map_cons] at ih ⊢
      rw [List.intercalate_cons_cons, textOf_append, textOf_append, ih,
        String.intercalate_cons_cons]

/-! ## From text to lexemes -/

/-- The lexeme that a character is by itself; nothing if it belongs to a word. -/
def ofMark? (c : Char) : Option Lexeme :=
  if c = ' ' then some .blank
  else if c = ',' then some .comma
  else if c = '(' then some .opening
  else if c = ')' then some .closing
  else none

/-- Puts a character before lexemes. If they begin with a word, it is the first of that word. -/
def extend (c : Char) : List Lexeme → List Lexeme
  | .word text :: rest => .word (String.ofList (c :: text.toList)) :: rest
  | ls => .word (String.ofList [c]) :: ls

/-- The lexemes of a text. -/
def cut : List Char → List Lexeme
  | [] => []
  | c :: rest =>
    match ofMark? c with
    | some l => l :: cut rest
    | none => extend c (cut rest)

def ofText (s : String) : List Lexeme := cut s.toList

/-! ## Words that do not touch -/

def IsWord (text : String) : Prop := text ≠ "" ∧ ∀ c ∈ text.toList, ofMark? c = none

instance (text : String) : Decidable (IsWord text) :=
  decidable_of_iff
    ((!text.toList.isEmpty && text.toList.all fun c => (ofMark? c).isNone) = true)
    (by simp [IsWord])

/-- Lexemes in which every word is one, and no word touches another. The flag tells whether a word
stands right before them. -/
def Apart : Bool → List Lexeme → Prop
  | _, [] => True
  | afterWord, .word text :: rest => afterWord = false ∧ IsWord text ∧ Apart true rest
  | _, .blank :: rest => Apart false rest
  | _, .comma :: rest => Apart false rest
  | _, .opening :: rest => Apart false rest
  | _, .closing :: rest => Apart false rest

/-- What may stand after a word may stand anywhere. -/
theorem Apart.anywhere {ls : List Lexeme} (h : Apart true ls) (afterWord : Bool) :
    Apart afterWord ls := by
  cases ls with
  | nil => trivial
  | cons l rest =>
    cases l with
    | word text => exact absurd h.1 (by decide)
    | blank => exact h
    | comma => exact h
    | opening => exact h
    | closing => exact h

/-- A word is not cut, whatever comes after it, unless a word does. -/
theorem cut_word_append {cs rest : List Char} (hne : cs ≠ []) (hcs : ∀ c ∈ cs, ofMark? c = none)
    (hrest : Apart true (cut rest)) :
    cut (cs ++ rest) = .word (String.ofList cs) :: cut rest := by
  induction cs with
  | nil => exact absurd rfl hne
  | cons c cs ih =>
    have hc : ofMark? c = none := hcs c (by simp)
    cases cs with
    | nil =>
      -- the last character of the word does not get into what follows
      simp only [List.cons_append, List.nil_append, cut, hc]
      cases hcut : cut rest with
      | nil => rfl
      | cons l ls =>
        rw [hcut] at hrest
        cases l with
        | word text => exact absurd hrest.1 (by decide)
        | blank => rfl
        | comma => rfl
        | opening => rfl
        | closing => rfl
    | cons d ds =>
      -- the others begin with a word, which the first character belongs to
      have htail := ih (by simp) (fun x hx => hcs x (List.mem_cons_of_mem c hx))
      rw [List.cons_append, cut, hc, htail]
      simp [extend]

/-- Cutting the text of lexemes gives the lexemes back, if no two words touch. -/
theorem cut_textOf {ls : List Lexeme} {afterWord : Bool} (h : Apart afterWord ls) :
    cut (textOf ls).toList = ls := by
  induction ls generalizing afterWord with
  | nil => rfl
  | cons l rest ih =>
    rw [textOf, String.toList_append]
    cases l with
    | word text =>
      obtain ⟨-, ⟨hne, hchars⟩, hrest⟩ := h
      -- a word ends where the next lexeme begins, which is no word
      have hnil : text.toList ≠ [] := fun hnil => hne (String.toList_eq_nil_iff.1 hnil)
      have hcut := ih hrest
      show cut (text.toList ++ (textOf rest).toList) = _
      rw [cut_word_append hnil hchars (hcut.symm ▸ hrest), hcut, String.ofList_toList]
    | blank => exact congrArg (Lexeme.blank :: ·) (ih h)
    | comma => exact congrArg (Lexeme.comma :: ·) (ih h)
    | opening => exact congrArg (Lexeme.opening :: ·) (ih h)
    | closing => exact congrArg (Lexeme.closing :: ·) (ih h)

/-- **Lexemes are told apart by their text**, if no two words touch. -/
theorem textOf_inj {ls ls' : List Lexeme} (h : Apart false ls) (h' : Apart false ls')
    (htext : textOf ls = textOf ls') : ls = ls' := by
  rw [← cut_textOf h, htext, cut_textOf h']

/-! ## Keys -/

/-- The key that a lexeme is: a word that begins with a sigil. -/
def key? (sigil : Char) : Lexeme → Option String
  | .word text => if text.toList.head? = some sigil then some text else none
  | _ => none

/-- The keys among lexemes, from left to right. -/
def keys (sigil : Char) (ls : List Lexeme) : List String := ls.filterMap (key? sigil)

/-- The keys that occur in an expression, from left to right. -/
def keysIn (sigil : Char) (expression : String) : List String := keys sigil (ofText expression)

@[simp] theorem keys_nil (sigil : Char) : keys sigil [] = [] := rfl

@[simp] theorem keys_append (sigil : Char) (ls later : List Lexeme) :
    keys sigil (ls ++ later) = keys sigil ls ++ keys sigil later := List.filterMap_append

@[simp] theorem keys_blank (sigil : Char) (ls : List Lexeme) :
    keys sigil (.blank :: ls) = keys sigil ls := rfl

@[simp] theorem keys_comma (sigil : Char) (ls : List Lexeme) :
    keys sigil (.comma :: ls) = keys sigil ls := rfl

@[simp] theorem keys_opening (sigil : Char) (ls : List Lexeme) :
    keys sigil (.opening :: ls) = keys sigil ls := rfl

@[simp] theorem keys_closing (sigil : Char) (ls : List Lexeme) :
    keys sigil (.closing :: ls) = keys sigil ls := rfl

/-- A word adds itself to the keys of a sigil if it begins with that sigil. -/
theorem keys_word (sigil : Char) (text : String) (ls : List Lexeme) :
    keys sigil (.word text :: ls)
      = (if text.toList.head? = some sigil then [text] else []) ++ keys sigil ls := by
  by_cases h : text.toList.head? = some sigil
  · rw [if_pos h, keys, List.filterMap_cons_some (b := text) (by rw [key?, if_pos h])]
    rfl
  · rw [if_neg h, keys, List.filterMap_cons_none (by rw [key?, if_neg h])]
    rfl

/-- The keys that occur in a text are those among its lexemes. -/
theorem keysIn_textOf {ls : List Lexeme} (h : Apart false ls) (sigil : Char) :
    keysIn sigil (textOf ls) = keys sigil ls := by
  rw [keysIn, ofText, cut_textOf h]

end Lexeme

namespace KeySupply

/-- **A key is one word**: neither its sigil nor a digit is anything but part of a word. -/
theorem IsKey.isWord {sigil : Char} {text : String} (h : IsKey sigil text)
    (hsigil : Lexeme.ofMark? sigil = none) : Lexeme.IsWord text := by
  obtain ⟨n, rfl⟩ := h
  refine ⟨fun hempty => ?_, fun c hc => ?_⟩
  · have := congrArg String.toList hempty
    rw [toList_nth] at this
    cases this
  · rw [toList_nth, List.mem_cons] at hc
    rcases hc with rfl | hdigit
    · exact hsigil
    · -- no mark is a digit
      have hc := Nat.isDigit_of_mem_toDigits (by decide) (by decide) hdigit
      have hmark (m : Char) (hm : m.isDigit = false) : c ≠ m := by
        rintro rfl
        rw [hc] at hm
        cases hm
      simp only [Lexeme.ofMark?, hmark ' ' rfl, hmark ',' rfl, hmark '(' rfl, hmark ')' rfl,
        if_false]

/-- A key of one sigil is none of another. -/
theorem IsKey.head?_ne {sigil other : Char} {text : String} (h : IsKey sigil text)
    (hne : sigil ≠ other) : text.toList.head? ≠ some other := by
  rw [h.head?]
  exact fun heq => hne (Option.some.inj heq)

end KeySupply

end TableQuery
