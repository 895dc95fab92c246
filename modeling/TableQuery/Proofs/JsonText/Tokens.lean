import Mathlib.Data.List.TakeDrop
import Mathlib.Data.List.TakeWhile
import TableQuery.Json.Draft
import TableQuery.Proofs.Digits
import TableQuery.Proofs.Report

/-!
# Strings and numbers of JSON text

How a string is written, piece by piece, and how a number is written, digit by digit. Pieces and
numerals carry the proofs that they are what the grammar of JSON allows, so that whatever is put
together from them is read as it was meant, and nothing else is read.

* **`scanString_eq_ok`** — the strings that are read are those made of pieces.
* **`scanNumber_chars`** — a numeral is read as its literal, if what follows cannot belong to it.
* **`exists_numeral`** — a number that is read is a numeral.
-/

namespace TableQuery.Json

open Decimal (IsDigits IsWhole)

/-! ## Strings -/

/-- The four digits of a `\u` escape. -/
structure Unit16 where
  a : Char
  b : Char
  c : Char
  d : Char
  code : Nat
  isCode : hexCode? a b c d = some code

def Unit16.chars (u : Unit16) : List Char := ['\\', 'u', u.a, u.b, u.c, u.d]

/-- One character of a string, as it is written. -/
inductive Piece where
  | plain (c : Char) (quote : c ≠ '"') (backslash : c ≠ '\\') (control : ¬c.toNat < 0x20)
  | escape (e c : Char) (h : simpleEscape? e = some c)
  | unit (u : Unit16) (low : isLowSurrogate u.code = false) (high : isHighSurrogate u.code = false)
  | pair (u v : Unit16) (high : isHighSurrogate u.code = true) (low : isLowSurrogate v.code = true)

namespace Piece

def chars : Piece → List Char
  | plain c .. => [c]
  | escape e .. => ['\\', e]
  | unit u .. => u.chars
  | pair u v .. => u.chars ++ v.chars

/-- The character that the piece stands for. -/
def char : Piece → Char
  | plain c .. => c
  | escape _ c _ => c
  | unit u .. => Char.ofNat u.code
  | pair u v .. => pairChar u.code v.code

end Piece

/-- A string without its opening quote. -/
def quoteChars (ps : List Piece) : List Char := ps.flatMap Piece.chars ++ ['"']

/-- No code is both the first half of a pair and the second. -/
theorem isLowSurrogate_of_high {code : Nat} (h : isHighSurrogate code = true) :
    isLowSurrogate code = false := by
  simp only [isHighSurrogate, isLowSurrogate, Bool.and_eq_true, decide_eq_true_eq,
    Bool.and_eq_false_iff, decide_eq_false_iff_not] at h ⊢
  omega

/-! Each step of the scan, by what comes next. -/

section

variable {content rest : List Char} {garbled : Bool} {high : Option Nat}

/-- A quotation mark ends the string. It is garbled if a half of a pair has been left alone, also at
the end. -/
theorem scanString_quote : scanString content garbled high ('"' :: rest)
    = .ok (if garbled || high.isSome then none else some content.reverse, rest) := by
  rw [scanString.eq_def]
  rfl

/-- A character that is not special stands for itself; a first half before it is left alone. -/
theorem scanString_plain {c : Char} (quote : c ≠ '"') (backslash : c ≠ '\\')
    (control : ¬c.toNat < 0x20) : scanString content garbled high (c :: rest)
      = scanString (c :: content) (garbled || high.isSome) none rest := by
  rw [scanString.eq_def]
  simp only [if_neg quote, if_neg backslash, if_neg control]

/-- An escape of one letter stands for its character; a first half before it is left alone. -/
theorem scanString_escape {e c : Char} (h : simpleEscape? e = some c) :
    scanString content garbled high ('\\' :: e :: rest)
      = scanString (c :: content) (garbled || high.isSome) none rest := by
  -- `u` begins a code, and is no escape of one letter
  have hu : e ≠ 'u' := by
    rintro rfl
    cases h
  rw [scanString.eq_def]
  simp only [if_neg hu, h]
  rfl

/-- Where no first half is open, a code is a first half, a character, or a second half with no
first. -/
theorem scanString_code (u : Unit16) : scanString content garbled none (u.chars ++ rest)
    = if isLowSurrogate u.code then scanString content true none rest
      else if isHighSurrogate u.code then scanString content garbled (some u.code) rest
      else scanString (Char.ofNat u.code :: content) garbled none rest := by
  show scanString content garbled none ('\\' :: 'u' :: u.a :: u.b :: u.c :: u.d :: rest) = _
  rw [scanString.eq_def]
  simp only [u.isCode]
  rfl

/-- Where a first half is open, only a second half completes a character. -/
theorem scanString_second (u : Unit16) (first : Nat) :
    scanString content garbled (some first) (u.chars ++ rest)
      = if isLowSurrogate u.code then
          scanString (pairChar first u.code :: content) garbled none rest
        else scanString content true none rest := by
  show scanString content garbled (some first) ('\\' :: 'u' :: u.a :: u.b :: u.c :: u.d :: rest) = _
  rw [scanString.eq_def]
  simp only [u.isCode]
  rfl

end

/-- One piece is scanned as the character that it stands for. -/
theorem scanString_piece (p : Piece) (content rest : List Char) :
    scanString content false none (p.chars ++ rest)
      = scanString (p.char :: content) false none rest := by
  cases p with
  | plain c quote backslash control => exact scanString_plain quote backslash control
  | escape e c h => exact scanString_escape h
  | unit u low high =>
    rw [Piece.chars, scanString_code, if_neg (by simp [low]), if_neg (by simp [high]), Piece.char]
  | pair u v high low =>
    rw [Piece.chars, List.append_assoc, scanString_code,
      if_neg (by simp [isLowSurrogate_of_high high]), if_pos high, scanString_second, if_pos low,
      Piece.char]

/-- **A string that is made of pieces** is read as the characters that they stand for. -/
theorem scanString_quoteChars (ps : List Piece) (content rest : List Char) :
    scanString content false none (quoteChars ps ++ rest)
      = .ok (some (content.reverse ++ ps.map Piece.char), rest) := by
  induction ps generalizing content with
  | nil =>
    rw [quoteChars, List.flatMap_nil, List.nil_append, List.singleton_append, scanString_quote]
    simp
  | cons p ps ih =>
    have hsplit : quoteChars (p :: ps) ++ rest = p.chars ++ (quoteChars ps ++ rest) := by
      simp [quoteChars]
    rw [hsplit, scanString_piece, ih]
    simp

/-- What stands before the closing quote of a string that is read: pieces, of which the first is the
second half of a pair if the scan has come upon the first half. -/
def Completes (content out cs rest : List Char) : Option Nat → Prop
  | none => ∃ ps, out = content.reverse ++ ps.map Piece.char ∧ cs = quoteChars ps ++ rest
  | some first => ∃ (v : Unit16) (ps : List Piece), isLowSurrogate v.code = true
      ∧ out = content.reverse ++ pairChar first v.code :: ps.map Piece.char
      ∧ cs = v.chars ++ quoteChars ps ++ rest

/-- A piece in front of what has been read is one more piece of the string. -/
theorem Completes.piece {content out cs rest : List Char} (p : Piece)
    (h : Completes (p.char :: content) out cs rest none) :
    Completes content out (p.chars ++ cs) rest none := by
  obtain ⟨ps, rfl, rfl⟩ := h
  exact ⟨p :: ps, by simp, by simp [quoteChars]⟩

/-- A string that is read is not garbled, and made of pieces. -/
theorem completes_of_scanString {content cs out rest : List Char} {garbled : Bool}
    {high : Option Nat} (h : scanString content garbled high cs = .ok (some out, rest)) :
    garbled = false ∧ Completes content out cs rest high := by
  -- the text in front of which nothing is left open
  have unpaired {garbled : Bool} {high : Option Nat} (hopen : (garbled || high.isSome) = false) :
      garbled = false ∧ high = none := by
    simpa using hopen
  fun_induction scanString content garbled high cs with
  | case2 content garbled high behind =>
    split at h
    · cases h
    · next hopen =>
      obtain ⟨rfl, rfl⟩ := unpaired (Bool.eq_false_iff.2 hopen)
      cases h
      exact ⟨rfl, [], by simp, rfl⟩
  | case5 content garbled x y z w behind code hcode low _ ih => cases (ih h).1
  | case6 content garbled x y z w behind code hcode low high _ ih =>
    obtain ⟨rfl, v, ps, hv, rfl, rfl⟩ := ih h
    exact ⟨rfl, .pair ⟨x, y, z, w, code, hcode⟩ v high hv :: ps, rfl, by
      simp [quoteChars, Piece.chars, Unit16.chars]⟩
  | case7 content garbled x y z w behind code hcode low high _ ih =>
    obtain ⟨rfl, hps⟩ := ih h
    have hunit := hps.piece
      (.unit ⟨x, y, z, w, code, hcode⟩ (by simpa using low) (by simpa using high))
    exact ⟨rfl, hunit⟩
  | case8 content garbled x y z w behind code first hcode low _ ih =>
    obtain ⟨rfl, ps, rfl, rfl⟩ := ih h
    exact ⟨rfl, ⟨x, y, z, w, code, hcode⟩, ps, low, by simp, rfl⟩
  | case9 content garbled x y z w behind code first hcode low _ ih => cases (ih h).1
  | case11 content garbled high _ e behind _ c hc _ ih =>
    obtain ⟨hopen, hps⟩ := ih h
    obtain ⟨rfl, rfl⟩ := unpaired hopen
    exact ⟨rfl, hps.piece (.escape e c hc)⟩
  | case14 content garbled high c behind _ quote backslash control ih =>
    obtain ⟨hopen, hps⟩ := ih h
    obtain ⟨rfl, rfl⟩ := unpaired hopen
    exact ⟨rfl, hps.piece (.plain c quote backslash control)⟩
  | _ => cases h

/-- **The strings that are read** are those that are made of pieces. -/
theorem scanString_eq_ok {cs out rest : List Char} :
    scanString [] false none cs = .ok (some out, rest)
      ↔ ∃ ps : List Piece, out = ps.map Piece.char ∧ cs = quoteChars ps ++ rest := by
  constructor
  · intro h
    exact (completes_of_scanString h).2
  · rintro ⟨ps, rfl, rfl⟩
    exact scanString_quoteChars ps [] rest

/-! ## Numbers -/

/-- A number as it is written: a literal, the mark of its exponent, and whether an exponent that is
not negative has a sign. -/
structure Numeral where
  literal : Literal
  mark : Char
  plus : Bool
  whole : IsWhole literal.whole
  fraction : ∀ ds, literal.fraction = some ds → IsDigits ds
  exponent : ∀ e, literal.exponent = some e → IsDigits e.2
  isMark : mark = 'e' ∨ mark = 'E'

def fractionChars : Option (List Char) → List Char
  | none => []
  | some ds => '.' :: ds

def signChars (below plus : Bool) : List Char :=
  if below then ['-'] else if plus then ['+'] else []

def exponentChars (mark : Char) (plus : Bool) : Option (Bool × List Char) → List Char
  | none => []
  | some (below, ds) => mark :: (signChars below plus ++ ds)

def Numeral.chars (n : Numeral) : List Char :=
  (if n.literal.negative then ['-'] else []) ++ n.literal.whole
    ++ fractionChars n.literal.fraction ++ exponentChars n.mark n.plus n.literal.exponent

/-- What follows does not begin with a digit. -/
def EndsDigits (rest : List Char) : Prop := ∀ c ∈ rest.head?, c.isDigit = false

/-- What follows begins with nothing that could belong to a number. -/
structure EndsNumber (rest : List Char) : Prop where
  digit : EndsDigits rest
  point : ∀ c ∈ rest.head?, c ≠ '.'
  mark : ∀ c ∈ rest.head?, c ≠ 'e' ∧ c ≠ 'E'

theorem endsNumber_nil : EndsNumber [] := ⟨nofun, nofun, nofun⟩

/-- All digits are taken, and nothing behind them. -/
theorem spanDigits_append {ds rest : List Char} (digit : ∀ d ∈ ds, d.isDigit = true)
    (h : EndsDigits rest) : spanDigits (ds ++ rest) = (ds, rest) := by
  -- nothing is taken off what follows, and nothing of it is dropped
  have htake : rest.takeWhile Char.isDigit = [] := by
    cases rest with
    | nil => rfl
    | cons c rest => rw [List.takeWhile_cons_of_neg (by simp [h c rfl])]
  have hdrop : rest.dropWhile Char.isDigit = rest := by
    cases rest with
    | nil => rfl
    | cons c rest => rw [List.dropWhile_cons_of_neg (by simp [h c rfl])]
  rw [spanDigits, List.span_eq_takeWhile_dropWhile, List.takeWhile_append_of_pos digit,
    List.dropWhile_append_of_pos digit, htake, hdrop, List.append_nil]

/-- What is taken are digits, and they stand in front of what is left. -/
theorem of_spanDigits {cs ds rest : List Char} (h : spanDigits cs = (ds, rest)) :
    cs = ds ++ rest ∧ ∀ d ∈ ds, d.isDigit = true := by
  rw [spanDigits, List.span_eq_takeWhile_dropWhile] at h
  cases h
  exact ⟨(List.takeWhile_append_dropWhile).symm, fun d hd => List.mem_takeWhile_imp hd⟩

/-- A whole part is read up to what cannot belong to it. -/
theorem scanWhole_append {ds rest : List Char} (whole : IsWhole ds) (h : EndsDigits rest) :
    scanWhole (ds ++ rest) = .ok (ds, rest) := by
  rw [scanWhole, spanDigits_append whole.digit h]
  split
  · next heq =>
    cases heq
    exact absurd rfl whole.nonempty
  · -- a leading zero with a digit behind it is no whole part
    next heq =>
    cases heq
    cases whole.noLeadingZero _ rfl
  · next heq =>
    cases heq
    rfl

/-- What is read as a whole part is one: not empty, and with no leading zero but zero itself. -/
theorem of_scanWhole {cs ds rest : List Char} (h : scanWhole cs = .ok (ds, rest)) :
    cs = ds ++ rest ∧ IsWhole ds := by
  rw [scanWhole] at h
  split at h
  · cases h
  · cases h
  · next digits behind nonempty noLeadingZero heq =>
    cases h
    obtain ⟨rfl, digit⟩ := of_spanDigits heq
    refine ⟨rfl, ⟨fun hnil => nonempty hnil, digit⟩, fun more hmore => ?_⟩
    cases more with
    | nil => rfl
    | cons d more => cases noLeadingZero d more hmore

/-- A fraction is read with its point, and none where no point stands. -/
theorem scanFraction_append {fraction : Option (List Char)} {rest : List Char}
    (digits : ∀ ds, fraction = some ds → IsDigits ds) (h : EndsDigits rest)
    (point : ∀ c ∈ rest.head?, c ≠ '.') :
    scanFraction (fractionChars fraction ++ rest) = .ok (fraction, rest) := by
  cases fraction with
  | none =>
    show scanFraction rest = _
    rw [scanFraction.eq_def]
    split
    · -- the rest does not begin with a point, so there is no fraction to scan
      exact absurd rfl (point '.' rfl)
    · rfl
  | some ds =>
    have hds := digits ds rfl
    show scanFraction ('.' :: (ds ++ rest)) = _
    rw [scanFraction, spanDigits_append hds.digit h]
    split
    · next heq =>
      cases heq
      exact absurd rfl hds.nonempty
    · next heq =>
      cases heq
      rfl

/-- What is read as a fraction is a point with at least one digit, or nothing. -/
theorem of_scanFraction {cs rest : List Char} {fraction : Option (List Char)}
    (h : scanFraction cs = .ok (fraction, rest)) :
    cs = fractionChars fraction ++ rest ∧ ∀ ds, fraction = some ds → IsDigits ds := by
  rw [scanFraction.eq_def] at h
  split at h
  · split at h
    · cases h
    · next digits behind nonempty heq =>
      cases h
      obtain ⟨rfl, digit⟩ := of_spanDigits heq
      exact ⟨rfl, fun ds hds => Option.some.inj hds ▸ ⟨fun hnil => nonempty hnil, digit⟩⟩
  · cases h
    exact ⟨rfl, nofun⟩

/-- Whether the exponent that begins here is negative, and its digits. -/
def exponentSign : List Char → Bool × List Char
  | '+' :: rest => (false, rest)
  | '-' :: rest => (true, rest)
  | rest => (false, rest)

/-- The sign of an exponent is told apart from its digits, whether it is written or not. -/
theorem exponentSign_append (below plus : Bool) {ds : List Char} (digits : IsDigits ds)
    (rest : List Char) :
    exponentSign (signChars below plus ++ (ds ++ rest)) = (below, ds ++ rest) := by
  cases below with
  | true => rfl
  | false =>
    cases plus with
    | true => rfl
    | false =>
      obtain ⟨d, ds, rfl⟩ := List.exists_cons_of_ne_nil digits.nonempty
      have hd := digits.digit d List.mem_cons_self
      show exponentSign (d :: (ds ++ rest)) = _
      rw [exponentSign.eq_def]
      -- a digit is no sign
      split
      · next heq => cases heq; cases hd
      · next heq => cases heq; cases hd
      · rfl

/-- Where a sign has been told apart, it stood there, except that a plus may have been left out. -/
theorem of_exponentSign {cs unsigned : List Char} {below : Bool}
    (h : exponentSign cs = (below, unsigned)) : ∃ plus, cs = signChars below plus ++ unsigned := by
  rw [exponentSign.eq_def] at h
  split at h <;> cases h
  · exact ⟨true, rfl⟩
  · exact ⟨false, rfl⟩
  · exact ⟨false, rfl⟩

/-- Behind its mark, an exponent is a sign and at least one digit. -/
theorem scanExponent_mark {mark : Char} (isMark : mark = 'e' ∨ mark = 'E') (cs : List Char) :
    scanExponent (mark :: cs) = match spanDigits (exponentSign cs).2 with
      | ([], rest) => .error (lacksDigit rest)
      | (digits, rest) => .ok (some ((exponentSign cs).1, digits), rest) := by
  rw [scanExponent.eq_def]
  dsimp only
  rw [if_pos (by simpa using isMark)]
  rfl

/-- Where no mark stands, there is no exponent. -/
theorem scanExponent_other {rest : List Char} (h : ∀ c ∈ rest.head?, c ≠ 'e' ∧ c ≠ 'E') :
    scanExponent rest = .ok (none, rest) := by
  rw [scanExponent.eq_def]
  split
  · next c rest =>
    obtain ⟨hsmall, hlarge⟩ := h c rfl
    rw [if_neg (by simp [hsmall, hlarge])]
  · rfl

/-- An exponent is read as it was written, and none where none was. -/
theorem scanExponent_append {mark : Char} {plus : Bool} {exponent : Option (Bool × List Char)}
    {rest : List Char} (isMark : mark = 'e' ∨ mark = 'E')
    (digits : ∀ e, exponent = some e → IsDigits e.2) (h : EndsDigits rest)
    (ends : ∀ c ∈ rest.head?, c ≠ 'e' ∧ c ≠ 'E') :
    scanExponent (exponentChars mark plus exponent ++ rest) = .ok (exponent, rest) := by
  cases exponent with
  | none => exact scanExponent_other ends
  | some e =>
    obtain ⟨below, ds⟩ := e
    have hds : IsDigits ds := digits _ rfl
    show scanExponent (mark :: ((signChars below plus ++ ds) ++ rest)) = _
    rw [List.append_assoc, scanExponent_mark isMark, exponentSign_append below plus hds,
      spanDigits_append hds.digit h]
    split
    · next heq =>
      cases heq
      exact absurd rfl hds.nonempty
    · next heq =>
      cases heq
      rfl

/-- What is read as an exponent was written as one, with some mark and some sign. -/
theorem of_scanExponent {cs rest : List Char} {exponent : Option (Bool × List Char)}
    (h : scanExponent cs = .ok (exponent, rest)) :
    ∃ mark plus, (mark = 'e' ∨ mark = 'E') ∧ cs = exponentChars mark plus exponent ++ rest
      ∧ ∀ e, exponent = some e → IsDigits e.2 := by
  -- whether the first character is a mark decides which of the two it is
  by_cases hmark : ∃ mark behind, cs = mark :: behind ∧ (mark = 'e' ∨ mark = 'E')
  · obtain ⟨mark, behind, rfl, isMark⟩ := hmark
    rw [scanExponent_mark isMark] at h
    generalize hsign : exponentSign behind = signed at h
    obtain ⟨below, unsigned⟩ := signed
    obtain ⟨plus, rfl⟩ := of_exponentSign hsign
    split at h
    · cases h
    · next digits behind nonempty heq =>
      cases h
      obtain ⟨rfl, digit⟩ := of_spanDigits heq
      refine ⟨mark, plus, isMark, by simp [exponentChars], fun e he => ?_⟩
      cases he
      exact ⟨fun hnil => nonempty hnil, digit⟩
  · have hother : ∀ c ∈ cs.head?, c ≠ 'e' ∧ c ≠ 'E' := by
      intro c hc
      cases cs with
      | nil => cases hc
      | cons mark behind =>
        cases hc
        exact not_or.1 fun isMark => hmark ⟨c, behind, rfl, isMark⟩
    rw [scanExponent_other hother] at h
    cases h
    exact ⟨'e', false, .inl rfl, rfl, nofun⟩

/-- The digits of a number, whose sign has been taken off. -/
def scanUnsigned (negative : Bool) (cs : List Char) : Except Break (Literal × List Char) := do
  let (whole, cs) ← scanWhole cs
  let (fraction, cs) ← scanFraction cs
  let (exponent, cs) ← scanExponent cs
  return (⟨negative, whole, fraction, exponent⟩, cs)

theorem scanNumber_minus (cs : List Char) : scanNumber ('-' :: cs) = scanUnsigned true cs := rfl

/-- What begins with no minus is read as a number that is not negative. There is no plus in front of
numbers. -/
theorem scanNumber_unsigned {cs : List Char} (h : ∀ rest, cs ≠ '-' :: rest) :
    scanNumber cs = scanUnsigned false cs := by
  rw [scanNumber]
  · rfl
  · exact h

namespace Numeral

variable (n : Numeral) {rest : List Char}

/-- The numeral without its sign. -/
def unsignedChars : List Char :=
  n.literal.whole ++ (fractionChars n.literal.fraction
    ++ exponentChars n.mark n.plus n.literal.exponent)

theorem chars_eq : n.chars = (if n.literal.negative then ['-'] else []) ++ n.unsignedChars := by
  simp only [chars, unsignedChars, List.append_assoc]

/-- A numeral without its sign begins with a digit. -/
theorem exists_digit : ∃ d cs, n.unsignedChars = d :: cs ∧ d.isDigit = true := by
  obtain ⟨d, ds, hds⟩ := List.exists_cons_of_ne_nil n.whole.nonempty
  refine ⟨d, ds ++ (fractionChars n.literal.fraction
    ++ exponentChars n.mark n.plus n.literal.exponent), ?_,
    n.whole.digit d (hds ▸ List.mem_cons_self)⟩
  rw [unsignedChars, hds]
  rfl

/-- Neither the fraction nor the exponent begins with a digit, and the exponent does not begin with
a point. -/
theorem endsDigits_exponent (h : EndsNumber rest) :
    EndsDigits (exponentChars n.mark n.plus n.literal.exponent ++ rest)
      ∧ ∀ c ∈ (exponentChars n.mark n.plus n.literal.exponent ++ rest).head?, c ≠ '.' := by
  cases n.literal.exponent with
  | none => exact ⟨h.digit, h.point⟩
  | some e =>
    have hhead (c : Char) (hc : c ∈ (exponentChars n.mark n.plus (some e) ++ rest).head?) :
        c = 'e' ∨ c = 'E' := by
      cases hc
      exact n.isMark
    constructor <;> intro c hc <;> rcases hhead c hc with rfl | rfl <;> decide

/-- The whole part ends where the fraction begins, or the exponent, or what follows the numeral. -/
theorem endsDigits_fraction (h : EndsNumber rest) :
    EndsDigits (fractionChars n.literal.fraction
      ++ (exponentChars n.mark n.plus n.literal.exponent ++ rest)) := by
  cases n.literal.fraction with
  | none => exact (n.endsDigits_exponent h).1
  | some ds =>
    intro c hc
    cases hc
    rfl

/-- Behind its sign a numeral is read part by part, each of which ends where the next one begins. -/
theorem scanUnsigned_chars (h : EndsNumber rest) :
    scanUnsigned n.literal.negative (n.unsignedChars ++ rest) = .ok (n.literal, rest) := by
  obtain ⟨hexponent, hpoint⟩ := n.endsDigits_exponent h
  rw [scanUnsigned, unsignedChars, List.append_assoc, List.append_assoc,
    scanWhole_append n.whole (n.endsDigits_fraction h), ok_bind]
  dsimp only
  rw [scanFraction_append n.fraction hexponent hpoint, ok_bind]
  dsimp only
  rw [scanExponent_append n.isMark n.exponent h.digit h.mark]
  rfl

end Numeral

/-- **A numeral is read as its literal**, if what follows cannot belong to it. -/
theorem scanNumber_chars (n : Numeral) {rest : List Char} (h : EndsNumber rest) :
    scanNumber (n.chars ++ rest) = .ok (n.literal, rest) := by
  have hunsigned := n.scanUnsigned_chars h
  rw [n.chars_eq]
  cases hsign : n.literal.negative with
  | true =>
    rw [hsign] at hunsigned
    exact hunsigned
  | false =>
    rw [hsign] at hunsigned
    obtain ⟨d, cs, hcs, hd⟩ := n.exists_digit
    rw [if_neg Bool.false_ne_true, List.nil_append, scanNumber_unsigned, hunsigned]
    -- a digit is no sign
    rintro behind heq
    rw [hcs] at heq
    cases heq
    cases hd

/-- **A number that is read** is a numeral. -/
theorem exists_numeral {cs rest : List Char} {l : Literal} (h : scanNumber cs = .ok (l, rest)) :
    ∃ n : Numeral, n.literal = l ∧ cs = n.chars ++ rest := by
  -- behind the sign both kinds of number are scanned in the same way
  have of_unsigned {negative : Bool} {cs : List Char}
      (h : scanUnsigned negative cs = .ok (l, rest)) :
      ∃ n : Numeral, n.literal = l ∧ l.negative = negative ∧ cs = n.unsignedChars ++ rest := by
    obtain ⟨⟨whole, behind⟩, hwhole, h⟩ := bind_eq_ok.1 h
    obtain ⟨⟨fraction, behind⟩, hfraction, h⟩ := bind_eq_ok.1 h
    obtain ⟨⟨exponent, behind⟩, hexponent, h⟩ := bind_eq_ok.1 h
    cases h
    obtain ⟨rfl, isWhole⟩ := of_scanWhole hwhole
    obtain ⟨rfl, fractionDigits⟩ := of_scanFraction hfraction
    obtain ⟨mark, plus, isMark, rfl, exponentDigits⟩ := of_scanExponent hexponent
    refine ⟨⟨_, mark, plus, isWhole, fractionDigits, exponentDigits, isMark⟩, rfl, rfl, ?_⟩
    simp only [Numeral.unsignedChars, List.append_assoc]
  by_cases hsign : ∃ behind, cs = '-' :: behind
  · obtain ⟨behind, rfl⟩ := hsign
    obtain ⟨n, hn, hnegative, rfl⟩ := of_unsigned (scanNumber_minus behind ▸ h)
    refine ⟨n, hn, ?_⟩
    rw [n.chars_eq, hn, hnegative]
    rfl
  · rw [scanNumber_unsigned (not_exists.1 hsign)] at h
    obtain ⟨n, hn, hnegative, rfl⟩ := of_unsigned h
    refine ⟨n, hn, ?_⟩
    rw [n.chars_eq, hn, hnegative]
    rfl

end TableQuery.Json
