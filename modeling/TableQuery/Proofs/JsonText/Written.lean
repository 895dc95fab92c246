import Mathlib.Data.List.DropRight
import TableQuery.Proofs.JsonText.Tokens

/-!
# JSON text as it is written

A document in the form that it has in a text: with its blanks, with the members of its objects in
their order, with its strings in pieces and its numbers in digits. The type `Written` is the grammar
of JSON.

* **`scanValue_chars`** — what is written is scanned as a whole, up to what follows it.
* **`document_draft`** — what is scanned is a document if it does not lie too deep and no number is
  out of range.
* **`read_text`** — so a text that holds one document between blanks is read.
-/

namespace TableQuery.Json

structure Blanks where
  chars : List Char
  blank : ∀ c ∈ chars, isBlank c = true

def Blanks.none : Blanks := ⟨[], nofun⟩

@[simp] theorem Blanks.chars_none : Blanks.none.chars = [] := rfl

/-- Something between blanks. -/
structure Padded (α : Type) where
  before : Blanks
  it : α
  after : Blanks

/-- A document as it is written. What follows the opening bracket of an empty container, or the last
element or member of another one, are blanks. -/
inductive Written where
  | null
  | bool (b : Bool)
  | number (n : Numeral)
  | string (ps : List Piece)
  | array (elements : List (Padded Written)) (blanks : Blanks)
  | object (members : List (Padded (List Piece) × Padded Written)) (blanks : Blanks)

/-- The content of a string. -/
def content (ps : List Piece) : String := String.ofList (ps.map Piece.char)

namespace Written

/-! ## Texts -/

mutual

def chars : Written → List Char
  | .null => "null".toList
  | .bool true => "true".toList
  | .bool false => "false".toList
  | .number n => n.chars
  | .string ps => '"' :: quoteChars ps
  | .array elements blanks =>
    '[' :: ((elementChars elements).tail ++ (blanks.chars ++ [']']))
  | .object members blanks =>
    '\x7b' :: ((memberChars members).tail ++ (blanks.chars ++ ['\x7d']))

/-- The elements of an array, each behind a comma; the first comma is not written. -/
def elementChars : List (Padded Written) → List Char
  | [] => []
  | ⟨before, w, after⟩ :: rest =>
    ',' :: (before.chars ++ (w.chars ++ (after.chars ++ elementChars rest)))

def memberChars : List (Padded (List Piece) × Padded Written) → List Char
  | [] => []
  | (name, ⟨before, w, after⟩) :: rest =>
    ',' :: (name.before.chars ++ ('"' :: (quoteChars name.it ++ (name.after.chars ++ ':' ::
      (before.chars ++ (w.chars ++ (after.chars ++ memberChars rest)))))))

end

mutual

/-- What is made out of the text where `room` containers may still be entered. -/
def draft (room : Nat) : Written → Draft
  | .null => .null
  | .bool b => .bool b
  | .number n => .number n.literal.value?
  | .string ps => .string (content ps)
  | .array elements _ => .array (room == 0) (draftElements (room - 1) elements) none
  | .object members _ => .object (room == 0) (draftMembers (room - 1) members) none

def draftElements (room : Nat) : List (Padded Written) → List Draft
  | [] => []
  | ⟨_, w, _⟩ :: rest => w.draft room :: draftElements room rest

def draftMembers (room : Nat) : List (Padded (List Piece) × Padded Written) → List (Name × Draft)
  | [] => []
  | (name, ⟨_, w, _⟩) :: rest => (.text (content name.it), w.draft room) :: draftMembers room rest

end

mutual

/-- The number of containers that the innermost value lies in. -/
def depth : Written → Nat
  | .array elements _ => depthElements elements + 1
  | .object members _ => depthMembers members + 1
  | _ => 0

def depthElements : List (Padded Written) → Nat
  | [] => 0
  | ⟨_, w, _⟩ :: rest => max w.depth (depthElements rest)

def depthMembers : List (Padded (List Piece) × Padded Written) → Nat
  | [] => 0
  | (_, ⟨_, w, _⟩) :: rest => max w.depth (depthMembers rest)

end

mutual

/-- The document that is written, unless it has a number out of range. -/
def document? : Written → Option Json
  | .null => some .null
  | .bool b => some (.bool b)
  | .number n => n.literal.value?.map .number
  | .string ps => some (.string (content ps))
  | .array elements _ => (documentElements? elements).map .array
  | .object members _ => (documentMembers? members).map .object

def documentElements? : List (Padded Written) → Option (List Json)
  | [] => some []
  | ⟨_, w, _⟩ :: rest => do
    let j ← w.document?
    let js ← documentElements? rest
    return j :: js

def documentMembers? : List (Padded (List Piece) × Padded Written) → Option (List (String × Json))
  | [] => some []
  | (name, ⟨_, w, _⟩) :: rest => do
    let j ← w.document?
    let ms ← documentMembers? rest
    return (content name.it, j) :: ms

end

/-! ## Blanks and first characters -/

end Written

/-- Blanks in front change nothing about what is left after skipping blanks. -/
theorem skipBlanks_append (b : Blanks) (cs : List Char) :
    skipBlanks (b.chars ++ cs) = skipBlanks cs := by
  rw [skipBlanks, List.dropWhile_append_of_pos b.blank]
  rfl

/-- Nothing is skipped where no blank stands. -/
theorem skipBlanks_cons {c : Char} (h : isBlank c = false) (rest : List Char) :
    skipBlanks (c :: rest) = c :: rest := by
  rw [skipBlanks, List.dropWhile_cons_of_neg (by simp [h])]

theorem skipBlanks_skipBlanks (cs : List Char) : skipBlanks (skipBlanks cs) = skipBlanks cs :=
  List.dropWhile_idempotent isBlank cs

/-- Blanks, and what follows them. -/
theorem exists_blanks (cs : List Char) : ∃ b : Blanks, cs = b.chars ++ skipBlanks cs :=
  ⟨⟨cs.takeWhile isBlank, fun _ hc => List.mem_takeWhile_imp hc⟩,
    (List.takeWhile_append_dropWhile).symm⟩

/-- A number cannot begin with what is skipped. -/
theorem isBlank_of_isDigit {c : Char} (h : c.isDigit = true) : isBlank c = false := by
  rw [isBlank, Bool.or_eq_false_iff, Bool.or_eq_false_iff, Bool.or_eq_false_iff]
  refine ⟨⟨⟨?_, ?_⟩, ?_⟩, ?_⟩ <;> exact beq_eq_false_iff_ne.2 fun heq => by cases heq; cases h

/-- A value is scanned behind blanks as it is without them. The scan itself skips, so this is needed
where the scan of a container has skipped before it looked for the closing bracket. -/
theorem scanValue_skipBlanks (fuel room : Nat) (cs : List Char) :
    scanValue fuel room (skipBlanks cs) = scanValue fuel room cs := by
  cases fuel with
  | zero => rw [scanValue, scanValue]
  | succ fuel => rw [scanValue, scanValue, skipBlanks_skipBlanks]

/-- The first character of a value. -/
structure StartsValue (c : Char) : Prop where
  blank : isBlank c = false
  bracket : c ≠ ']'

namespace Numeral

/-- A numeral begins with a minus sign or a digit. -/
theorem exists_first (n : Numeral) :
    ∃ c cs, n.chars = c :: cs ∧ (c = '-' ∨ c.isDigit = true) := by
  obtain ⟨d, cs, hcs, hd⟩ := n.exists_digit
  rw [n.chars_eq]
  cases n.literal.negative with
  | true => exact ⟨'-', n.unsignedChars, rfl, .inl rfl⟩
  | false => exact ⟨d, cs, hcs, .inr hd⟩

end Numeral

/-- The sign and the digits begin values: they are no blanks and close no array. -/
theorem startsValue_of_number {c : Char} (h : c = '-' ∨ c.isDigit = true) : StartsValue c := by
  rcases h with rfl | h
  · exact ⟨rfl, by decide⟩
  · refine ⟨isBlank_of_isDigit h, ?_⟩
    rintro rfl
    cases h

/-- What is written is never empty, and its first character begins a value. So the scan of an array
that looks for `]` first does not mistake the first element for the end. -/
theorem Written.exists_first (w : Written) : ∃ c cs, w.chars = c :: cs ∧ StartsValue c := by
  cases w with
  | null => exact ⟨'n', _, rfl, rfl, by decide⟩
  | bool b =>
    cases b with
    | true => exact ⟨'t', _, rfl, rfl, by decide⟩
    | false => exact ⟨'f', _, rfl, rfl, by decide⟩
  | number n =>
    obtain ⟨c, cs, hcs, hc⟩ := n.exists_first
    -- a number is the only value whose first character is not fixed
    exact ⟨c, cs, hcs, startsValue_of_number hc⟩
  | string ps => exact ⟨'"', quoteChars ps, rfl, rfl, by decide⟩
  | array elements blanks =>
    exact ⟨'[', (elementChars elements).tail ++ (blanks.chars ++ [']']), rfl, rfl, by decide⟩
  | object members blanks =>
    exact ⟨'\x7b', (memberChars members).tail ++ (blanks.chars ++ ['\x7d']), rfl, rfl, by decide⟩

/-! ## Scanning what is written -/

/-- A number ends before a character that could not go on with it: no digit, no point and no
exponent. -/
theorem endsNumber_cons {c : Char} (digit : c.isDigit = false) (point : c ≠ '.') (small : c ≠ 'e')
    (large : c ≠ 'E') (rest : List Char) : EndsNumber (c :: rest) where
  digit _ h := by cases h; exact digit
  point _ h := by cases h; exact point
  mark _ h := by cases h; exact ⟨small, large⟩

/-- A number ends where a blank follows, or a text that ends it. -/
theorem Blanks.endsNumber (b : Blanks) {rest : List Char} (h : EndsNumber rest) :
    EndsNumber (b.chars ++ rest) := by
  obtain ⟨cs, blank⟩ := b
  cases cs with
  | nil => exact h
  | cons c cs =>
    have hc := blank c List.mem_cons_self
    refine endsNumber_cons ?_ ?_ ?_ ?_ _
    · exact Bool.eq_false_iff.2 fun hd => by simp [isBlank_of_isDigit hd] at hc
    all_goals rintro rfl; cases hc

/-- An array goes on, or ends, with something that is not part of a number. -/
theorem endsNumber_elements (elements : List (Padded Written)) (b : Blanks) (rest : List Char) :
    EndsNumber (Written.elementChars elements ++ (b.chars ++ ']' :: rest)) := by
  cases elements with
  | nil => exact b.endsNumber (endsNumber_cons rfl (by decide) (by decide) (by decide) _)
  | cons e more => exact endsNumber_cons rfl (by decide) (by decide) (by decide) _

/-- A number that is the value of a member ends where the member does: before a blank, a comma or
the closing brace. -/
theorem endsNumber_members (members : List (Padded (List Piece) × Padded Written)) (b : Blanks)
    (rest : List Char) :
    EndsNumber (Written.memberChars members ++ (b.chars ++ '\x7d' :: rest)) := by
  cases members with
  | nil => exact b.endsNumber (endsNumber_cons rfl (by decide) (by decide) (by decide) _)
  | cons m more => exact endsNumber_cons rfl (by decide) (by decide) (by decide) _

/-- How elements and members are scanned up to their closing bracket, given how one of them and those
behind it are: from the beginning of the container, or from where it goes on. -/
def scanItems {α : Type} (bracket : Char) (item : List Char → Scan (Items α)) (first : Bool)
    (cs : List Char) : Scan (Items α) :=
  match skipBlanks cs with
  | [] => Items.stop [] .truncated
  | c :: rest =>
    if c = bracket then ⟨([], none), some rest⟩
    else if first then item (c :: rest)
    else if c = ',' then item rest
    else Items.stop [] .malformed

section

variable {α : Type} {bracket : Char} {item : List Char → Scan (Items α)} {rest : List Char}

/-- The closing bracket ends a container, behind blanks and whether or not an element has come
before. -/
theorem scanItems_close (h : isBlank bracket = false) (b : Blanks) (first : Bool) :
    scanItems bracket item first (b.chars ++ bracket :: rest) = ⟨([], none), some rest⟩ := by
  rw [scanItems, skipBlanks_append, skipBlanks_cons h]
  exact if_pos rfl

/-- Behind an element, a comma leads on to the next one. -/
theorem scanItems_comma (h : ',' ≠ bracket) (b : Blanks) :
    scanItems bracket item false (b.chars ++ ',' :: rest) = item rest := by
  rw [scanItems, skipBlanks_append, skipBlanks_cons rfl]
  exact if_neg h

/-- The first item is scanned as if it stood behind a comma. -/
theorem scanItems_first (blanks : ∀ cs, item (skipBlanks cs) = item cs) (comma : ',' ≠ bracket)
    {c : Char} {cs : List Char} (h : skipBlanks cs = c :: rest) (hc : c ≠ bracket) :
    scanItems bracket item true cs = scanItems bracket item false (',' :: cs) := by
  have hcomma : scanItems bracket item false (',' :: cs) = item cs :=
    scanItems_comma comma .none
  rw [hcomma, scanItems, h]
  dsimp only
  rw [if_neg hc, if_pos rfl, ← h, blanks]

end

section

variable {fuel room : Nat} {rest : List Char}

/-- With fuel left, the elements of an array are scanned by the loop that arrays share with objects.
-/
theorem scanElements_succ (first : Bool) (cs : List Char) :
    scanElements (fuel + 1) room first cs = scanItems ']' (scanElement fuel room) first cs := by
  rw [scanElements]
  rfl

/-- With fuel left, the members of an object are scanned by the loop that objects share with arrays.
-/
theorem scanMembers_succ (first : Bool) (cs : List Char) :
    scanMembers (fuel + 1) room first cs
      = scanItems '\x7d' (scanMember fuel room) first cs := by
  rw [scanMembers]
  rfl

/-- Blanks before a value are not part of what is scanned. -/
theorem scanValue_append (b : Blanks) :
    scanValue fuel room (b.chars ++ rest) = scanValue fuel room rest := by
  rw [← scanValue_skipBlanks, skipBlanks_append, scanValue_skipBlanks]

/-- A quotation mark opens a string, whose content the draft is made of. -/
theorem scanValue_string :
    scanValue (fuel + 1) room ('"' :: rest)
      = Scan.ofExcept draftOfContent (scanString [] false none rest) := by
  rw [scanValue, skipBlanks_cons rfl]
  rfl

/-- An opening bracket enters an array: the elements are scanned with one container less room, and
it is noted whether there was any room for it. -/
theorem scanValue_array : scanValue (fuel + 1) room ('[' :: rest)
    = ⟨.array (room == 0) (scanElements fuel (room - 1) true rest).draft.1
        (scanElements fuel (room - 1) true rest).draft.2,
      (scanElements fuel (room - 1) true rest).rest⟩ := by
  rw [scanValue, skipBlanks_cons rfl]
  rfl

/-- An opening brace enters an object, with one container less room for the values of its members.
-/
theorem scanValue_object : scanValue (fuel + 1) room ('\x7b' :: rest)
    = ⟨.object (room == 0) (scanMembers fuel (room - 1) true rest).draft.1
        (scanMembers fuel (room - 1) true rest).draft.2,
      (scanMembers fuel (room - 1) true rest).rest⟩ := by
  rw [scanValue, skipBlanks_cons rfl]
  rfl

/-- A sign or a digit begins a number. No other case of the scan looks for these characters. -/
theorem scanValue_number {c : Char} (h : c = '-' ∨ c.isDigit = true) :
    scanValue (fuel + 1) room (c :: rest)
      = Scan.ofExcept (.number ·.value?) (scanNumber (c :: rest)) := by
  -- the scan looks for the four opening characters before it tries a number
  have hne {d : Char} (hd : d ≠ '-') (hdigit : d.isDigit = false) : c ≠ d := by
    rintro rfl
    rcases h with rfl | h
    · exact hd rfl
    · simp [hdigit] at h
  rw [scanValue, skipBlanks_cons (startsValue_of_number h).blank]
  dsimp only
  rw [if_neg (hne (by decide) rfl), if_neg (hne (by decide) rfl), if_neg (hne (by decide) rfl),
    if_neg (hne (by decide) rfl), if_pos (by simpa using h)]

/-- The elements of an array end at its bracket. -/
theorem scanElements_close (b : Blanks) (first : Bool) :
    scanElements (fuel + 1) room first (b.chars ++ ']' :: rest) = ⟨([], none), some rest⟩ := by
  rw [scanElements_succ, scanItems_close rfl]

/-- Behind an element, a comma leads on to the next element. -/
theorem scanElements_comma (b : Blanks) :
    scanElements (fuel + 1) room false (b.chars ++ ',' :: rest) = scanElement fuel room rest := by
  rw [scanElements_succ, scanItems_comma (by decide)]

/-- An element that is scanned stands before the elements that are scanned behind it. -/
theorem scanElement_value {cs : List Char} {d : Draft}
    (h : scanValue fuel room cs = ⟨d, some rest⟩) :
    scanElement (fuel + 1) room cs = Items.cons d (scanElements fuel room false rest) := by
  rw [scanElement, h]

/-- An element is scanned behind blanks as it is without them. -/
theorem scanElement_skipBlanks (cs : List Char) :
    scanElement fuel room (skipBlanks cs) = scanElement fuel room cs := by
  cases fuel with
  | zero => rw [scanElement, scanElement]
  | succ fuel => rw [scanElement, scanElement, scanValue_skipBlanks]

/-- The first element is scanned as if a comma stood before it, unless the array closes at once.
With this, one induction over the elements covers both loops. -/
theorem scanElements_first {c : Char} {cs : List Char} (h : skipBlanks cs = c :: rest)
    (bracket : c ≠ ']') :
    scanElements fuel room true cs = scanElements fuel room false (',' :: cs) := by
  cases fuel with
  | zero => rw [scanElements, scanElements]
  | succ fuel =>
    rw [scanElements_succ, scanElements_succ,
      scanItems_first scanElement_skipBlanks (by decide) h bracket]

/-- The members of an object end at its brace. -/
theorem scanMembers_close (b : Blanks) (first : Bool) :
    scanMembers (fuel + 1) room first (b.chars ++ '\x7d' :: rest) = ⟨([], none), some rest⟩ := by
  rw [scanMembers_succ, scanItems_close rfl]

/-- Behind a member, a comma leads on to the next member. -/
theorem scanMembers_comma (b : Blanks) :
    scanMembers (fuel + 1) room false (b.chars ++ ',' :: rest) = scanMember fuel room rest := by
  rw [scanMembers_succ, scanItems_comma (by decide)]

/-- A member is a name, a colon and a value, with blanks around the name; it stands before the
members that are scanned behind it. -/
theorem scanMember_value {cs behind : List Char} {d : Draft} (name : Padded (List Piece))
    (h : scanValue fuel room behind = ⟨d, some rest⟩)
    (hcs : cs = name.before.chars ++ ('"' :: (quoteChars name.it ++ (name.after.chars
      ++ ':' :: behind)))) :
    scanMember (fuel + 1) room cs
      = Items.cons (.text (content name.it), d) (scanMembers fuel room false rest) := by
  rw [hcs, scanMember, skipBlanks_append, skipBlanks_cons rfl]
  dsimp only
  rw [if_pos rfl, scanString_quoteChars]
  dsimp only
  -- behind the name: the blanks before the colon, then the value, which skips its own
  rw [skipBlanks_append, skipBlanks_cons rfl]
  dsimp only
  rw [if_pos rfl, h]
  rfl

/-- A member is scanned behind blanks as it is without them. -/
theorem scanMember_skipBlanks (cs : List Char) :
    scanMember fuel room (skipBlanks cs) = scanMember fuel room cs := by
  cases fuel with
  | zero => rw [scanMember, scanMember]
  | succ fuel => rw [scanMember, scanMember, skipBlanks_skipBlanks]

/-- The first member is scanned as if a comma stood before it, unless the object closes at once. -/
theorem scanMembers_first {c : Char} {cs : List Char} (h : skipBlanks cs = c :: rest)
    (brace : c ≠ '\x7d') :
    scanMembers fuel room true cs = scanMembers fuel room false (',' :: cs) := by
  cases fuel with
  | zero => rw [scanMembers, scanMembers]
  | succ fuel =>
    rw [scanMembers_succ, scanMembers_succ,
      scanItems_first scanMember_skipBlanks (by decide) h brace]

end

namespace Written

/-- The first element of an array is what stands behind its bracket. -/
theorem scanElements_tail {fuel room : Nat} (e : Padded Written) (more : List (Padded Written))
    (behind : List Char) :
    scanElements fuel room true ((elementChars (e :: more)).tail ++ behind)
      = scanElements fuel room false (elementChars (e :: more) ++ behind) := by
  obtain ⟨before, w, after⟩ := e
  obtain ⟨c, cs, hcs, hc⟩ := w.exists_first
  have hfirst : skipBlanks ((elementChars (⟨before, w, after⟩ :: more)).tail ++ behind)
      = c :: (cs ++ (after.chars ++ elementChars more) ++ behind) := by
    rw [elementChars, List.tail_cons, List.append_assoc, skipBlanks_append, hcs]
    simp only [List.cons_append, skipBlanks_cons hc.blank, List.append_assoc]
  exact scanElements_first hfirst hc.bracket

/-- The members of an object that is written are scanned as if their first comma had been written,
since what comes first is the quotation mark of a name. -/
theorem scanMembers_tail {fuel room : Nat} (m : Padded (List Piece) × Padded Written)
    (more : List (Padded (List Piece) × Padded Written)) (behind : List Char) :
    scanMembers fuel room true ((memberChars (m :: more)).tail ++ behind)
      = scanMembers fuel room false (memberChars (m :: more) ++ behind) := by
  obtain ⟨name, before, w, after⟩ := m
  have hfirst : skipBlanks ((memberChars ((name, ⟨before, w, after⟩) :: more)).tail ++ behind)
      = '"' :: ((quoteChars name.it ++ (name.after.chars ++ ':' :: (before.chars
        ++ (w.chars ++ (after.chars ++ memberChars more))))) ++ behind) := by
    rw [memberChars, List.tail_cons, List.append_assoc, skipBlanks_append]
    simp only [List.cons_append, skipBlanks_cons (c := '"') rfl]
  exact scanMembers_first hfirst (by decide)

theorem array_nil_chars (b : Blanks) (rest : List Char) :
    (array [] b).chars ++ rest = '[' :: (b.chars ++ ']' :: rest) := by
  simp [chars, elementChars]

/-- The text of an array, with what follows it: the closing bracket moves in front of that. -/
theorem array_chars (elements : List (Padded Written)) (b : Blanks) (rest : List Char) :
    (array elements b).chars ++ rest
      = '[' :: ((elementChars elements).tail ++ (b.chars ++ ']' :: rest)) := by
  simp [chars]

theorem object_nil_chars (b : Blanks) (rest : List Char) :
    (object [] b).chars ++ rest = '\x7b' :: (b.chars ++ '\x7d' :: rest) := by
  simp [chars, memberChars]

/-- The text of an object, with what follows it: the closing brace moves in front of that. -/
theorem object_chars (members : List (Padded (List Piece) × Padded Written)) (b : Blanks)
    (rest : List Char) :
    (object members b).chars ++ rest
      = '\x7b' :: ((memberChars members).tail ++ (b.chars ++ '\x7d' :: rest)) := by
  simp [chars]

-- Each step uses up one character of three units of fuel; the comma that is not written before the
-- first element stands for the bracket.
mutual

/-- **What is written is scanned as a whole**, up to what follows it. -/
theorem scanValue_chars (room : Nat) (rest : List Char) : ∀ (w : Written) (fuel : Nat),
    EndsNumber rest → 3 * (w.chars ++ rest).length ≤ fuel + 1 →
    scanValue (fuel + 1) room (w.chars ++ rest) = ⟨w.draft room, some rest⟩
  | .null, fuel, _, _ => by
    -- the first character decides what is scanned, here as for all other values
    show scanValue (fuel + 1) room ('n' :: 'u' :: 'l' :: 'l' :: rest) = _
    rw [scanValue, skipBlanks_cons rfl]
    rfl
  | .bool true, fuel, _, _ => by
    show scanValue (fuel + 1) room ('t' :: 'r' :: 'u' :: 'e' :: rest) = _
    rw [scanValue, skipBlanks_cons rfl]
    rfl
  | .bool false, fuel, _, _ => by
    show scanValue (fuel + 1) room ('f' :: 'a' :: 'l' :: 's' :: 'e' :: rest) = _
    rw [scanValue, skipBlanks_cons rfl]
    rfl
  | .number n, fuel, hrest, _ => by
    -- a number is told by its first character, a sign or a digit, and goes as far as `rest` lets it
    obtain ⟨c, cs, hcs, hc⟩ := n.exists_first
    have hscan := scanNumber_chars n hrest
    rw [hcs] at hscan
    rw [chars, hcs, List.cons_append, scanValue_number hc, ← List.cons_append, hscan]
    rfl
  | .string ps, fuel, _, _ => by
    rw [chars, List.cons_append, scanValue_string, scanString_quoteChars]
    rfl
  | .array [] b, fuel, _, h => by
    rw [array_nil_chars] at h ⊢
    obtain ⟨fuel, rfl⟩ : ∃ f, fuel = f + 1 := ⟨fuel - 1, by simp at h; omega⟩
    rw [scanValue_array, scanElements_close, draft, draftElements]
  | .array (e :: more) b, fuel, _, h => by
    rw [array_chars] at h ⊢
    obtain ⟨fuel, rfl⟩ : ∃ f, fuel = f + 1 := ⟨fuel - 1, by simp at h; omega⟩
    -- the scan of the elements begins behind the bracket, with no comma before the first of them
    have hmore := scanElements_chars (room - 1) rest (e :: more) fuel
      .none b (by simpa [elementChars] using h)
    rw [Blanks.chars_none, List.nil_append] at hmore
    rw [scanValue_array, scanElements_tail, hmore, draft]
  | .object [] b, fuel, _, h => by
    rw [object_nil_chars] at h ⊢
    obtain ⟨fuel, rfl⟩ : ∃ f, fuel = f + 1 := ⟨fuel - 1, by simp at h; omega⟩
    rw [scanValue_object, scanMembers_close, draft, draftMembers]
  | .object (m :: more) b, fuel, _, h => by
    rw [object_chars] at h ⊢
    obtain ⟨fuel, rfl⟩ : ∃ f, fuel = f + 1 := ⟨fuel - 1, by simp at h; omega⟩
    have hmore := scanMembers_chars (room - 1) rest (m :: more) fuel
      .none b (by simpa [memberChars] using h)
    rw [Blanks.chars_none, List.nil_append] at hmore
    rw [scanValue_object, scanMembers_tail, hmore, draft]

/-- Elements that are written are scanned as a whole, from their first comma to the closing bracket.
-/
theorem scanElements_chars (room : Nat) (rest : List Char) :
    ∀ (elements : List (Padded Written)) (fuel : Nat) (before b : Blanks),
    3 * (elementChars elements ++ (b.chars ++ ']' :: rest)).length ≤ fuel + 2 →
    scanElements (fuel + 1) room false
        (before.chars ++ (elementChars elements ++ (b.chars ++ ']' :: rest)))
      = ⟨(draftElements room elements, none), some rest⟩
  | [], fuel, before, b, _ => by
    show scanElements (fuel + 1) room false (before.chars ++ (b.chars ++ ']' :: rest)) = _
    rw [scanElements, skipBlanks_append, skipBlanks_append, skipBlanks_cons rfl]
    rfl
  | ⟨start, w, after⟩ :: more, fuel, before, b, h => by
    have htext : elementChars (⟨start, w, after⟩ :: more) ++ (b.chars ++ ']' :: rest)
        = ',' :: (start.chars ++ (w.chars ++ (after.chars
          ++ (elementChars more ++ (b.chars ++ ']' :: rest))))) := by
      simp [elementChars]
    rw [htext] at h ⊢
    simp only [List.length_cons, List.length_append] at h
    -- one unit of fuel goes to the comma and one to the element
    obtain ⟨fuel, rfl⟩ : ∃ f, fuel = f + 2 := ⟨fuel - 2, by omega⟩
    have hw := scanValue_chars room _ w fuel
      (after.endsNumber (endsNumber_elements more b rest)) (by simp; omega)
    have hmore := scanElements_chars room rest more fuel after b
      (by simp; omega)
    -- the blanks behind this element are those before the next comma, so they pass to `hmore`
    rw [← scanValue_append start] at hw
    rw [scanElements_comma, scanElement_value hw, hmore]
    rfl

/-- Members that are written are scanned as a whole, from their first comma to the closing brace. -/
theorem scanMembers_chars (room : Nat) (rest : List Char) :
    ∀ (members : List (Padded (List Piece) × Padded Written)) (fuel : Nat) (before b : Blanks),
    3 * (memberChars members ++ (b.chars ++ '\x7d' :: rest)).length ≤ fuel + 2 →
    scanMembers (fuel + 1) room false
        (before.chars ++ (memberChars members ++ (b.chars ++ '\x7d' :: rest)))
      = ⟨(draftMembers room members, none), some rest⟩
  | [], fuel, before, b, _ => by
    show scanMembers (fuel + 1) room false (before.chars ++ (b.chars ++ '\x7d' :: rest)) = _
    rw [scanMembers, skipBlanks_append, skipBlanks_append, skipBlanks_cons rfl]
    rfl
  | (name, ⟨start, w, after⟩) :: more, fuel, before, b, h => by
    have htext : memberChars ((name, ⟨start, w, after⟩) :: more) ++ (b.chars ++ '\x7d' :: rest)
        = ',' :: (name.before.chars ++ ('"' :: (quoteChars name.it ++ (name.after.chars ++ ':' ::
          (start.chars ++ (w.chars ++ (after.chars
            ++ (memberChars more ++ (b.chars ++ '\x7d' :: rest))))))))) := by
      simp [memberChars]
    rw [htext] at h ⊢
    simp only [List.length_cons, List.length_append] at h
    -- one unit of fuel goes to the comma and one to the member
    obtain ⟨fuel, rfl⟩ : ∃ f, fuel = f + 2 := ⟨fuel - 2, by omega⟩
    have hw := scanValue_chars room _ w fuel
      (after.endsNumber (endsNumber_members more b rest)) (by simp; omega)
    have hmore := scanMembers_chars room rest more fuel after b
      (by simp; omega)
    rw [← scanValue_append start] at hw
    rw [scanMembers_comma, scanMember_value name hw rfl, hmore]
    rfl

end

end Written

/-! ## Documents -/

/-- The draft of an array is a document if it does not lie too deep and its elements are documents.
-/
theorem document_array {deep : Bool} {ds : List Draft} {ending : Option Break} {j : Json} :
    (Draft.array deep ds ending).document = .ok j
      ↔ deep = false ∧ ∃ js, documentElements ending ds = .ok js ∧ .array js = j := by
  cases deep <;> simp [Draft.document, map_eq_ok]

/-- The draft of an object is a document if it does not lie too deep and its members are documents.
-/
theorem document_object {deep : Bool} {ds : List (Name × Draft)} {ending : Option Break}
    {j : Json} :
    (Draft.object deep ds ending).document = .ok j
      ↔ deep = false ∧ ∃ ms, documentMembers ending ds = .ok ms ∧ .object ms = j := by
  cases deep <;> simp [Draft.document, map_eq_ok]

namespace Written

variable {room : Nat}

mutual

/-- The draft of something written is a document if it does not lie too deep and has no number out
of range. -/
theorem document_draft (room : Nat) (j : Json) : ∀ w : Written,
    (w.draft room).document = .ok j ↔ w.depth ≤ room ∧ w.document? = some j
  | .null => by simp [draft, Draft.document, depth, document?]
  | .bool _ => by simp [draft, Draft.document, depth, document?]
  | .number n => by
    simp only [draft, depth, document?]
    cases n.literal.value? <;> simp [Draft.document]
  | .string _ => by simp [draft, Draft.document, depth, document?]
  | .array elements _ => by
    rw [draft, document_array, depth, document?, Option.map_eq_some_iff]
    simp only [fun js => document_draftElements (room - 1) js elements,
      and_assoc, exists_and_left, beq_eq_false_iff_ne]
    exact ⟨fun ⟨hroom, hdepth, h⟩ => ⟨by omega, h⟩, fun ⟨hdepth, h⟩ => ⟨by omega, by omega, h⟩⟩
  | .object members _ => by
    rw [draft, document_object, depth, document?, Option.map_eq_some_iff]
    simp only [fun ms => document_draftMembers (room - 1) ms members,
      and_assoc, exists_and_left, beq_eq_false_iff_ne]
    exact ⟨fun ⟨hroom, hdepth, h⟩ => ⟨by omega, h⟩, fun ⟨hdepth, h⟩ => ⟨by omega, by omega, h⟩⟩

/-- The elements are documents if none of them lies too deep and no number is out of range. -/
theorem document_draftElements (room : Nat) (js : List Json) :
    ∀ elements : List (Padded Written),
    documentElements none (draftElements room elements) = .ok js
      ↔ depthElements elements ≤ room ∧ documentElements? elements = some js
  | [] => by simp [draftElements, documentElements, depthElements, documentElements?]
  | ⟨_, w, _⟩ :: rest => by
    simp only [draftElements, documentElements, depthElements, documentElements?, bind_eq_ok,
      fun j => document_draft room j w,
      fun js => document_draftElements room js rest,
      Option.bind_eq_bind, Option.bind_eq_some_iff, Nat.max_le]
    -- both sides ask the same of the first element and of the rest, in a different grouping
    constructor
    · rintro ⟨j, ⟨hw, hj⟩, more, ⟨hrest, hmore⟩, heq⟩
      cases heq
      exact ⟨⟨hw, hrest⟩, j, hj, more, hmore, rfl⟩
    · rintro ⟨⟨hw, hrest⟩, j, hj, more, hmore, heq⟩
      cases heq
      exact ⟨j, ⟨hw, hj⟩, more, ⟨hrest, hmore⟩, rfl⟩

/-- The members are documents under the same condition on their values. Names come from strings, so
they are always read. -/
theorem document_draftMembers (room : Nat) (ms : List (String × Json)) :
    ∀ members : List (Padded (List Piece) × Padded Written),
    documentMembers none (draftMembers room members) = .ok ms
      ↔ depthMembers members ≤ room ∧ documentMembers? members = some ms
  | [] => by simp [draftMembers, documentMembers, depthMembers, documentMembers?]
  | (name, ⟨_, w, _⟩) :: rest => by
    simp only [draftMembers, documentMembers, depthMembers, documentMembers?, Name.read, ok_bind,
      bind_eq_ok, fun j => document_draft room j w,
      fun ms => document_draftMembers room ms rest,
      Option.bind_eq_bind, Option.bind_eq_some_iff, Nat.max_le]
    constructor
    · rintro ⟨j, ⟨hw, hj⟩, more, ⟨hrest, hmore⟩, heq⟩
      cases heq
      exact ⟨⟨hw, hrest⟩, j, hj, more, hmore, rfl⟩
    · rintro ⟨⟨hw, hrest⟩, j, hj, more, hmore, heq⟩
      cases heq
      exact ⟨j, ⟨hw, hj⟩, more, ⟨hrest, hmore⟩, rfl⟩

end

end Written

/-! ## Texts as a whole -/

/-- A text that holds one document between blanks. -/
def Padded.text (w : Padded Written) : String :=
  String.ofList (w.before.chars ++ (w.it.chars ++ w.after.chars))

/-- What is made of a text as a whole. -/
theorem ofText_text (w : Padded Written) (limit : Nat) :
    Draft.ofText limit w.text = ⟨w.it.draft limit, false⟩ := by
  have hfuel : 3 * (w.it.chars ++ w.after.chars).length
      ≤ 3 * (w.before.chars ++ (w.it.chars ++ w.after.chars)).length + 2 + 1 := by
    simp
    omega
  have hends : EndsNumber w.after.chars := by
    simpa using w.after.endsNumber endsNumber_nil
  have hblank : skipBlanks w.after.chars = [] := by
    rw [← List.append_nil w.after.chars, skipBlanks_append]
    rfl
  have hscan := Written.scanValue_chars limit _ w.it _ hends hfuel
  rw [← scanValue_append w.before] at hscan
  rw [Draft.ofText, Padded.text, String.toList_ofList, hscan]
  simp [hblank]

/-- **A text that holds one document** is read if this does not lie too deep and has no number out
of range. -/
theorem read_text {w : Padded Written} {j : Json} :
    Json.read w.text = .ok j ↔ w.it.depth ≤ nestingLimit ∧ w.it.document? = some j := by
  rw [← Written.document_draft, Json.read, readWithin, ofText_text]
  cases (w.it.draft nestingLimit).document <;> simp

end TableQuery.Json
