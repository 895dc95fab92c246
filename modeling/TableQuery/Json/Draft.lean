import TableQuery.Json.Document
import TableQuery.Json.Numeral

/-!
# Drafts of JSON text

What can be made out of a text, whether it is a JSON document or not. Where the text goes wrong the
draft has a break, in the place where a reader that works from left to right comes upon it. So a
reader of drafts reports whichever comes first, a value that it does not want or a text that it
cannot read.

A reader may also pass over a value it has no use for. Then it checks less: surrogates need no
partner, numbers may be out of range, and values may be nested to any depth.
-/

namespace TableQuery.Json

/-- Why a text is no document. -/
inductive Fault where
  | malformed
  | truncated
  deriving DecidableEq

/-- A place where the text goes wrong, and what is found there by a reader that reads the value, by
one that passes over it, and by one that wants a string or an object and looks no further where
anything else begins. -/
structure Break where
  reading : Fault
  passing : Fault
  choosing : Fault

/-- A break that is the same to every reader. -/
def Break.plain (f : Fault) : Break := ⟨f, f, f⟩

/-- The name of a member as far as it can be made out. -/
inductive Name where
  | text (s : String)
  /-- A string that holds half of a surrogate pair. -/
  | garbled
  /-- No string stands where a name should, either because something else does, which is then the
  member's value, or because the text ends. -/
  | missing (f : Fault)

def Name.read : Name → Except Fault String
  | .text s => .ok s
  | .garbled => .error .malformed
  | .missing f => .error f

/-- A number out of range has no value. A container that lies too deep to be read is marked; it ends
in a break unless it is closed. -/
inductive Draft where
  | null
  | bool (b : Bool)
  | number (n : Option Number)
  | string (s : String)
  | garbled
  | array (deep : Bool) (elements : List Draft) (ending : Option Break)
  | object (deep : Bool) (members : List (Name × Draft)) (ending : Option Break)
  | broken (b : Break)

/-! ## Strings -/

def hexValue? (c : Char) : Option Nat :=
  if c.isDigit then some (c.toNat - '0'.toNat)
  else if 'a' ≤ c && c ≤ 'f' then some (c.toNat - 'a'.toNat + 10)
  else if 'A' ≤ c && c ≤ 'F' then some (c.toNat - 'A'.toNat + 10)
  else none

def hexCode? (a b c d : Char) : Option Nat := do
  return ((← hexValue? a) * 16 + (← hexValue? b)) * 256 + ((← hexValue? c) * 16 + (← hexValue? d))

/-- The size of a text in bytes. -/
def byteCount (cs : List Char) : Nat := cs.foldr (fun c n => c.utf8Size + n) 0

/-- A `\u` escape takes the next four bytes, so it is cut off if there are fewer. -/
def escapeFault (cs : List Char) : Fault :=
  if byteCount cs < 4 then .truncated else .malformed

def isLowSurrogate (code : Nat) : Bool := 0xDC00 ≤ code && code < 0xE000

def isHighSurrogate (code : Nat) : Bool := 0xD800 ≤ code && code < 0xDC00

def simpleEscape? (c : Char) : Option Char :=
  match c with
  | '"' => some '"'
  | '\\' => some '\\'
  | '/' => some '/'
  | 'b' => some '\x08'
  | 'f' => some '\x0c'
  | 'n' => some '\n'
  | 'r' => some '\r'
  | 't' => some '\t'
  | _ => none

/-- A string as far as its closing quote: its content, which is nothing if the string is garbled,
and the text after it. -/
abbrev StringScan := Except Break (Option (List Char) × List Char)

def breakString (garbled : Bool) (f : Fault) : StringScan :=
  let reading := if garbled then .malformed else f
  .error ⟨reading, f, reading⟩

/-- The character of a surrogate pair. -/
def pairChar (high low : Nat) : Char :=
  Char.ofNat (0x10000 + (high - 0xD800) * 0x400 + (low - 0xDC00))

/-- Scans a string from behind its opening quote. The content so far is reversed; `high` is the
first half of a surrogate pair if the last escape was one. The string is garbled as soon as it is
clear that the second half does not follow. -/
def scanString (content : List Char) (garbled : Bool) (high : Option Nat) :
    List Char → StringScan
  | [] => breakString garbled .truncated
  | c :: rest =>
    let unpaired := garbled || high.isSome
    if c = '"' then .ok (if unpaired then none else some content.reverse, rest)
    else if c = '\\' then
      match rest with
      | [] => breakString garbled .truncated
      | e :: rest =>
        if e = 'u' then
          match rest with
          | x :: y :: z :: w :: rest =>
            match hexCode? x y z w, high with
            | none, _ => breakString garbled .malformed
            | some code, none =>
              -- A garbled string is scanned on, for those who pass over it.
              if isLowSurrogate code then scanString content true none rest
              else if isHighSurrogate code then scanString content garbled (some code) rest
              else scanString (Char.ofNat code :: content) garbled none rest
            | some code, some first =>
              if isLowSurrogate code then
                scanString (pairChar first code :: content) garbled none rest
              else scanString content true none rest
          | short => breakString garbled (escapeFault short)
        else
          match simpleEscape? e with
          | some x => scanString (x :: content) unpaired none rest
          | none => breakString unpaired .malformed
    else if c.toNat < 0x20 then breakString unpaired .malformed
    else scanString (c :: content) unpaired none rest

/-! ## Numbers and words -/

/-- A number that lacks a digit where the text ends; passing over it, the end counts as a wrong
character. -/
def lacksDigit : List Char → Break
  | [] => ⟨.truncated, .malformed, .malformed⟩
  | _ => .plain .malformed

/-- Digits up to the first other character. -/
def spanDigits (cs : List Char) : List Char × List Char := cs.span Char.isDigit

/-- One digit zero, or digits that do not begin with zero. -/
def scanWhole (cs : List Char) : Except Break (List Char × List Char) :=
  match spanDigits cs with
  | ([], rest) => .error (lacksDigit rest)
  | ('0' :: _ :: _, _) => .error (.plain .malformed)
  | (digits, rest) => .ok (digits, rest)

def scanFraction : List Char → Except Break (Option (List Char) × List Char)
  | '.' :: rest =>
    match spanDigits rest with
    | ([], rest) => .error (lacksDigit rest)
    | (digits, rest) => .ok (some digits, rest)
  | rest => .ok (none, rest)

def scanExponent : List Char → Except Break (Option (Bool × List Char) × List Char)
  | c :: rest =>
    if c = 'e' || c = 'E' then
      let (below, unsigned) := match rest with
        | '+' :: rest => (false, rest)
        | '-' :: rest => (true, rest)
        | rest => (false, rest)
      match spanDigits unsigned with
      | ([], rest) => .error (lacksDigit rest)
      | (digits, rest) => .ok (some (below, digits), rest)
    else .ok (none, c :: rest)
  | [] => .ok (none, [])

def scanNumber (cs : List Char) : Except Break (Literal × List Char) := do
  let (negative, cs) := match cs with
    | '-' :: rest => (true, rest)
    | cs => (false, cs)
  let (whole, cs) ← scanWhole cs
  let (fraction, cs) ← scanFraction cs
  let (exponent, cs) ← scanExponent cs
  return (⟨negative, whole, fraction, exponent⟩, cs)

/-- Scans the rest of a word. -/
def scanWord : List Char → List Char → Except Break (List Char)
  | [], cs => .ok cs
  | _ :: _, [] => .error ⟨.truncated, .truncated, .malformed⟩
  | w :: word, c :: rest =>
    if w = c then scanWord word rest else .error (.plain .malformed)

/-! ## Values -/

def isBlank (c : Char) : Bool := c == ' ' || c == '\t' || c == '\n' || c == '\r'

def skipBlanks (cs : List Char) : List Char := cs.dropWhile isBlank

/-- A draft, and the text after it if it ends. -/
structure Scan (α : Type) where
  draft : α
  rest : Option (List Char)

def Scan.broken (b : Break) : Scan Draft := ⟨.broken b, none⟩

def Scan.ofExcept {α : Type} (f : α → Draft) : Except Break (α × List Char) → Scan Draft
  | .ok (a, rest) => ⟨f a, some rest⟩
  | .error b => .broken b

def draftOfContent : Option (List Char) → Draft
  | some cs => .string (String.ofList cs)
  | none => .garbled

def nameOfContent : Option (List Char) → Name
  | some cs => .text (String.ofList cs)
  | none => .garbled

/-- Elements or members with what ends them. -/
abbrev Items (α : Type) := List α × Option Break

def Items.cons {α : Type} (a : α) (s : Scan (Items α)) : Scan (Items α) :=
  ⟨(a :: s.draft.1, s.draft.2), s.rest⟩

/-- The items end here, for good or because of a fault. -/
def Items.stop {α : Type} (items : List α) (f : Fault) : Scan (Items α) :=
  ⟨(items, some (.plain f)), none⟩

mutual

/-- Scans a value. `room` counts the containers that may still be entered. Each step into a value,
an element or a member uses up one character at least, so `fuel` above the length of the text never
runs out. -/
def scanValue (fuel room : Nat) (cs : List Char) : Scan Draft :=
  match fuel with
  | 0 => .broken (.plain .malformed)
  | fuel + 1 =>
    match skipBlanks cs with
    | [] => .broken (.plain .truncated)
    | c :: rest =>
      if c = 'n' then Scan.ofExcept (fun _ => .null) ((scanWord "ull".toList rest).map ((), ·))
      else if c = 't' then
        Scan.ofExcept (fun _ => .bool true) ((scanWord "rue".toList rest).map ((), ·))
      else if c = 'f' then
        Scan.ofExcept (fun _ => .bool false) ((scanWord "alse".toList rest).map ((), ·))
      else if c = '"' then Scan.ofExcept draftOfContent (scanString [] false none rest)
      else if c = '-' || c.isDigit then Scan.ofExcept (.number ·.value?) (scanNumber (c :: rest))
      else if c = '[' then
        let s := scanElements fuel (room - 1) true rest
        ⟨.array (room == 0) s.draft.1 s.draft.2, s.rest⟩
      else if c = '\x7b' then
        let s := scanMembers fuel (room - 1) true rest
        ⟨.object (room == 0) s.draft.1 s.draft.2, s.rest⟩
      else .broken (.plain .malformed)

/-- Scans the elements of an array up to its closing bracket. -/
def scanElements (fuel room : Nat) (first : Bool) (cs : List Char) : Scan (Items Draft) :=
  match fuel with
  | 0 => Items.stop [] .malformed
  | fuel + 1 =>
    match skipBlanks cs with
    | [] => Items.stop [] .truncated
    | c :: rest =>
      if c = ']' then ⟨([], none), some rest⟩
      else if first then scanElement fuel room (c :: rest)
      else if c = ',' then scanElement fuel room rest
      else Items.stop [] .malformed

def scanElement (fuel room : Nat) (cs : List Char) : Scan (Items Draft) :=
  match fuel with
  | 0 => Items.stop [] .malformed
  | fuel + 1 =>
    let v := scanValue fuel room cs
    match v.rest with
    | none => ⟨([v.draft], none), none⟩
    | some rest => Items.cons v.draft (scanElements fuel room false rest)

/-- Scans the members of an object up to its closing brace. -/
def scanMembers (fuel room : Nat) (first : Bool) (cs : List Char) : Scan (Items (Name × Draft)) :=
  match fuel with
  | 0 => Items.stop [] .malformed
  | fuel + 1 =>
    match skipBlanks cs with
    | [] => Items.stop [] .truncated
    | c :: rest =>
      if c = '\x7d' then ⟨([], none), some rest⟩
      else if first then scanMember fuel room (c :: rest)
      else if c = ',' then scanMember fuel room rest
      else Items.stop [] .malformed

def scanMember (fuel room : Nat) (cs : List Char) : Scan (Items (Name × Draft)) :=
  match fuel with
  | 0 => Items.stop [] .malformed
  | fuel + 1 =>
    match skipBlanks cs with
    | [] => ⟨([(.missing .truncated, .broken (.plain .truncated))], none), none⟩
    | c :: rest =>
      if c = '"' then
        match scanString [] false none rest with
        | .error b => ⟨([], some b), none⟩
        | .ok (content, rest) =>
          let name := nameOfContent content
          match skipBlanks rest with
          | [] => ⟨([(name, .broken (.plain .truncated))], none), none⟩
          | c :: rest =>
            if c = ':' then
              let v := scanValue fuel room rest
              match v.rest with
              | none => ⟨([(name, v.draft)], none), none⟩
              | some rest => Items.cons (name, v.draft) (scanMembers fuel room false rest)
            else ⟨([(name, .broken (.plain .malformed))], none), none⟩
      else ⟨([(.missing .malformed, (scanValue fuel room (c :: rest)).draft)], none), none⟩

end

/-- Every value of a document lies in at most this many containers. -/
def nestingLimit : Nat := 127

/-- A text as a whole: the value at its start, and whether only blanks follow. -/
structure TextDraft where
  value : Draft
  trailing : Bool

def Draft.ofText (limit : Nat) (text : String) : TextDraft :=
  let cs := text.toList
  let s := scanValue (3 * cs.length + 3) limit cs
  ⟨s.draft, s.rest.any fun rest => !(skipBlanks rest).isEmpty⟩

/-! ## Passing over a value -/

mutual

/-- What a reader finds that passes over a value: nothing, or the first break. -/
def Draft.passing : Draft → Option Fault
  | .array _ elements ending => passingElements ending elements
  | .object _ members ending => passingMembers ending members
  | .broken b => some b.passing
  | _ => none

def passingElements (ending : Option Break) : List Draft → Option Fault
  | [] => ending.map (·.passing)
  | d :: rest => d.passing.or (passingElements ending rest)

def passingMembers (ending : Option Break) : List (Name × Draft) → Option Fault
  | [] => ending.map (·.passing)
  | (.missing f, _) :: _ => some f
  | (_, d) :: rest => d.passing.or (passingMembers ending rest)

end

/-! ## Documents -/

mutual

/-- The document that a draft is, if it has no break and lies within the nesting limit. -/
def Draft.document : Draft → Except Fault Json
  | .null => .ok .null
  | .bool b => .ok (.bool b)
  | .number (some n) => .ok (.number n)
  | .number none => .error .malformed
  | .string s => .ok (.string s)
  | .garbled => .error .malformed
  | .array deep elements ending =>
    if deep then .error .malformed else (documentElements ending elements).map .array
  | .object deep members ending =>
    if deep then .error .malformed else (documentMembers ending members).map .object
  | .broken b => .error b.reading

def documentElements (ending : Option Break) : List Draft → Except Fault (List Json)
  | [] =>
    match ending with
    | none => .ok []
    | some b => .error b.reading
  | d :: rest => do
    let j ← d.document
    let js ← documentElements ending rest
    return j :: js

def documentMembers (ending : Option Break) :
    List (Name × Draft) → Except Fault (List (String × Json))
  | [] =>
    match ending with
    | none => .ok []
    | some b => .error b.reading
  | (name, d) :: rest => do
    let name ← name.read
    let j ← d.document
    let ms ← documentMembers ending rest
    return (name, j) :: ms

end

/-- Reads a text whose values lie in at most `limit` containers. -/
def readWithin (limit : Nat) (text : String) : Except Fault Json := do
  let t := Draft.ofText limit text
  let j ← t.value.document
  if t.trailing then .error .malformed else return j

def read (text : String) : Except Fault Json := readWithin nestingLimit text

mutual

/-- A document is a draft without breaks. -/
def toDraft : Json → Draft
  | .null => .null
  | .bool b => .bool b
  | .number n => .number (some n)
  | .string s => .string s
  | .array elements => .array false (draftElements elements) none
  | .object members => .object false (draftMembers members) none

def draftElements : List Json → List Draft
  | [] => []
  | j :: rest => j.toDraft :: draftElements rest

def draftMembers : List (String × Json) → List (Name × Draft)
  | [] => []
  | (name, j) :: rest => (.text name, j.toDraft) :: draftMembers rest

end

end TableQuery.Json
