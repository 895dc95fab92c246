import Mathlib.Computability.RegularExpressions
import Mathlib.Data.List.Chain
import Mathlib.Tactic.IntervalCases
import TableQuery.Proofs.Digits

/-!
# Number literals

The number literals of the store are the texts that match

    [+-]? ( D+ ( '.' D* )? | '.' D+ ) ( [eE] [+-]? D+ )?

from the first character to the last, where `D` is one of the ten digits. `numeral` is this
expression. The test for literals does not follow it: it drops a sign, cuts at the first mark of an
exponent, then at the first point, and looks for digits in what is left.

* **`isMantissa_iff`**, **`isExponent_iff`**, **`isUnsigned_iff`** — each part of the test accepts
  what its part of the expression matches.
* **`spelled_of_mem`** — what the expression says of the characters of a literal, one by one.
* **`numerals_exact`** — the test accepts exactly the literals.
-/

namespace TableQuery.Decimal

/-! ## The expression -/

def oneOf (cs : List Char) : RegularExpression Char := (cs.map .char).sum

def optional (p : RegularExpression Char) : RegularExpression Char := 1 + p

def oneOrMore (p : RegularExpression Char) : RegularExpression Char := p * p.star

def sign : RegularExpression Char := oneOf ['+', '-']

def digits : List Char := ['0', '1', '2', '3', '4', '5', '6', '7', '8', '9']

def mantissa : RegularExpression Char :=
  oneOrMore (oneOf digits) * optional (oneOf ['.'] * (oneOf digits).star)
    + oneOf ['.'] * oneOrMore (oneOf digits)

def signedDigits : RegularExpression Char := optional sign * oneOrMore (oneOf digits)

def unsignedNumeral : RegularExpression Char :=
  mantissa * optional (oneOf ['e', 'E'] * signedDigits)

def numeral : RegularExpression Char := optional sign * unsignedNumeral

/-! ## What its parts match -/

section

variable {p : RegularExpression Char} {set cs : List Char}

/-- A class of characters matches each of them, alone. -/
theorem mem_oneOf : cs ∈ (oneOf set).matches' ↔ ∃ c ∈ set, cs = [c] := by
  induction set with
  | nil => simp [oneOf, Language.notMem_zero]
  | cons c rest ih =>
    have hsum : oneOf (c :: rest) = .char c + oneOf rest := by simp [oneOf]
    rw [hsum, RegularExpression.matches'_add, Language.mem_add, ih, List.exists_mem_cons_iff]
    exact Iff.rfl

/-- What is optional matches nothing, or what it makes optional. -/
theorem mem_optional : cs ∈ (optional p).matches' ↔ cs = [] ∨ cs ∈ p.matches' := by
  rw [optional, RegularExpression.matches'_add, Language.mem_add]
  exact Iff.rfl

/-- A class of characters in front takes the first character off. -/
theorem mem_oneOf_mul :
    cs ∈ (oneOf set * p).matches' ↔ ∃ c ∈ set, ∃ rest ∈ p.matches', cs = c :: rest := by
  rw [RegularExpression.matches'_mul, Language.mem_mul]
  constructor
  · rintro ⟨first, hfirst, rest, hrest, rfl⟩
    obtain ⟨c, hc, rfl⟩ := mem_oneOf.1 hfirst
    exact ⟨c, hc, rest, hrest, rfl⟩
  · rintro ⟨c, hc, rest, hrest, rfl⟩
    exact ⟨[c], mem_oneOf.2 ⟨c, hc, rfl⟩, rest, hrest, rfl⟩

/-- A repeated class matches the texts that consist of its characters. -/
theorem mem_star_oneOf : cs ∈ (oneOf set).star.matches' ↔ ∀ c ∈ cs, c ∈ set := by
  rw [RegularExpression.matches'_star, Language.mem_kstar]
  constructor
  · rintro ⟨parts, rfl, hparts⟩ c hc
    obtain ⟨part, hpart, hmem⟩ := List.mem_flatten.1 hc
    obtain ⟨d, hd, rfl⟩ := mem_oneOf.1 (hparts part hpart)
    rw [List.mem_singleton.1 hmem]
    exact hd
  · intro h
    -- one part for each character
    refine ⟨cs.map fun c => [c], ?_, fun part hpart => ?_⟩
    · induction cs with
      | nil => rfl
      | cons c rest ih =>
        rw [List.map_cons, List.flatten_cons, ← ih fun c hc => h c (List.mem_cons_of_mem _ hc)]
        rfl
    · obtain ⟨c, hc, rfl⟩ := List.mem_map.1 hpart
      exact mem_oneOf.2 ⟨c, h c hc, rfl⟩

/-- A class that is repeated at least once matches the same texts but the empty one. -/
theorem mem_oneOrMore_oneOf :
    cs ∈ (oneOrMore (oneOf set)).matches' ↔ cs ≠ [] ∧ ∀ c ∈ cs, c ∈ set := by
  rw [oneOrMore, mem_oneOf_mul]
  simp only [mem_star_oneOf]
  cases cs with
  | nil => simp
  | cons c rest => simp

end

/-! ## Digits -/

/-- The digits of the test are the ten of the expression, so digits of other scripts are none. -/
theorem isDigit_iff {c : Char} : c.isDigit = true ↔ c ∈ digits := by
  constructor
  · intro h
    obtain ⟨hlow, hhigh⟩ := isDigit_iff_toNat.1 h
    rw [← Char.ofNat_toNat c]
    generalize c.toNat = n at hlow hhigh
    -- the digits are the ten characters between these two code points
    interval_cases n <;> decide
  · have hall : ∀ d ∈ digits, d.isDigit = true := by simp [digits]
    exact hall c

theorem allDigits_iff {cs : List Char} : allDigits cs = true ↔ ∀ c ∈ cs, c ∈ digits := by
  simp [allDigits, isDigit_iff]

/-- No digit is a point, a sign or the mark of an exponent. -/
theorem ne_of_mem_digits {c d : Char} (hc : c ∈ digits) (hd : d ∈ ['.', '+', '-', 'e', 'E']) :
    c ≠ d := by
  have hall : ∀ c ∈ digits, ∀ d ∈ ['.', '+', '-', 'e', 'E'], c ≠ d := by simp [digits]
  exact hall c hc d hd

/-! ## Signs and cuts -/

section

variable {p : Char → Bool} {cs before after : List Char} {c : Char}

/-- Nothing is cut where no character is looked for. -/
theorem cutAt_of_forall (h : ∀ c ∈ cs, p c = false) : cutAt p cs = (cs, none) := by
  induction cs with
  | nil => rfl
  | cons c rest ih =>
    rw [cutAt, h c List.mem_cons_self, ih fun d hd => h d (List.mem_cons_of_mem _ hd)]
    rfl

/-- The cut is at the first character that is looked for. -/
theorem cutAt_append (h : ∀ c ∈ before, p c = false) (hc : p c = true) :
    cutAt p (before ++ c :: after) = (before, some after) := by
  induction before with
  | nil => rw [List.nil_append, cutAt, if_pos hc]
  | cons d rest ih =>
    rw [List.cons_append, cutAt, h d List.mem_cons_self,
      ih fun e he => h e (List.mem_cons_of_mem _ he)]
    rfl

/-- One of the two is the case. -/
theorem cutAt_cases (p : Char → Bool) (cs : List Char) :
    (∀ c ∈ cs, p c = false)
      ∨ ∃ before c after, cs = before ++ c :: after ∧ p c = true ∧ ∀ d ∈ before, p d = false := by
  induction cs with
  | nil => exact .inl nofun
  | cons c rest ih =>
    cases hc : p c with
    | true => exact .inr ⟨[], c, rest, rfl, hc, nofun⟩
    | false =>
      rcases ih with hnone | ⟨before, d, after, rfl, hd, hbefore⟩
      · exact .inl (List.forall_mem_cons.2 ⟨hc, hnone⟩)
      · exact .inr ⟨c :: before, d, after, rfl, hd, List.forall_mem_cons.2 ⟨hc, hbefore⟩⟩

end

/-- What begins with a sign is no unsigned text. -/
def Unsigned (cs : List Char) : Prop := ∀ c ∈ cs.head?, c ≠ '+' ∧ c ≠ '-'

/-- Nothing is dropped from a text that begins with no sign. -/
theorem unsigned_eq {cs : List Char} (h : Unsigned cs) : unsigned cs = cs := by
  unfold unsigned
  split
  · exact absurd rfl (h '+' rfl).1
  · exact absurd rfl (h '-' rfl).2
  · rfl

/-- A sign, or nothing. -/
def IsSign (cs : List Char) : Prop := cs = [] ∨ ∃ c ∈ ['+', '-'], cs = [c]

/-- Behind an optional sign stands what follows it. -/
theorem mem_optional_sign_mul {p : RegularExpression Char} {cs : List Char} :
    cs ∈ (optional sign * p).matches' ↔ ∃ first, IsSign first ∧ ∃ rest ∈ p.matches',
      first ++ rest = cs := by
  rw [RegularExpression.matches'_mul, Language.mem_mul]
  simp only [mem_optional, sign, mem_oneOf, IsSign]

/-- Dropping a sign is matching it, where nothing else can match it. -/
theorem mem_iff_unsigned {p : RegularExpression Char} {cs : List Char}
    (h : ∀ rest ∈ p.matches', Unsigned rest) :
    cs ∈ (optional sign * p).matches' ↔ unsigned cs ∈ p.matches' := by
  rw [mem_optional_sign_mul]
  constructor
  · rintro ⟨first, rfl | ⟨c, hc, rfl⟩, rest, hrest, rfl⟩
    · rw [List.nil_append, unsigned_eq (h rest hrest)]
      exact hrest
    · rcases List.mem_pair.1 hc with rfl | rfl
      · exact hrest
      · exact hrest
  · intro hrest
    unfold unsigned at hrest
    split at hrest
    · exact ⟨['+'], .inr ⟨'+', by decide, rfl⟩, _, hrest, rfl⟩
    · exact ⟨['-'], .inr ⟨'-', by decide, rfl⟩, _, hrest, rfl⟩
    · exact ⟨[], .inl rfl, _, hrest, rfl⟩

/-! ## The parts of the test -/

/-- Digits begin with no sign. -/
theorem unsigned_of_digits {cs : List Char} (h : ∀ c ∈ cs, c ∈ digits) : Unsigned cs := by
  intro c hc
  have hdigit := h c (List.mem_of_mem_head? hc)
  exact ⟨ne_of_mem_digits hdigit (by decide), ne_of_mem_digits hdigit (by decide)⟩

/-- The test of an exponent accepts digits with an optional sign, and not the empty text. -/
theorem isExponent_iff {cs : List Char} : isExponent cs = true ↔ cs ∈ signedDigits.matches' := by
  have hunsigned : ∀ rest ∈ (oneOrMore (oneOf digits)).matches', Unsigned rest := fun rest hrest =>
    unsigned_of_digits (mem_oneOrMore_oneOf.1 hrest).2
  rw [signedDigits, mem_iff_unsigned hunsigned, mem_oneOrMore_oneOf, ← allDigits_iff]
  simp [isExponent]

/-- Digits alone, or digits on the sides of a point, where one side may be empty. -/
def IsMantissa (cs : List Char) : Prop :=
  (cs ≠ [] ∧ allDigits cs = true)
    ∨ ∃ whole fraction, cs = whole ++ '.' :: fraction ∧ (whole ≠ [] ∨ fraction ≠ [])
        ∧ allDigits whole = true ∧ allDigits fraction = true

/-- What the expression matches before an exponent are digits, with at most one point, and at least
one digit on one of its sides. -/
theorem mem_mantissa {cs : List Char} : cs ∈ mantissa.matches' ↔ IsMantissa cs := by
  rw [mantissa, RegularExpression.matches'_add, Language.mem_add, RegularExpression.matches'_mul,
    Language.mem_mul, mem_oneOf_mul]
  simp only [mem_oneOrMore_oneOf, mem_optional, mem_oneOf_mul, mem_star_oneOf, ← allDigits_iff]
  constructor
  · rintro (⟨whole, ⟨hne, hwhole⟩, rest, hrest, rfl⟩ | ⟨c, hc, fraction, ⟨hne, hfraction⟩, rfl⟩)
    · -- a point may be missing behind the whole part, but not before the fraction
      rcases hrest with rfl | ⟨c, hc, fraction, hfraction, rfl⟩
      · rw [List.append_nil]
        exact .inl ⟨hne, hwhole⟩
      · rw [List.mem_singleton.1 hc]
        exact .inr ⟨whole, fraction, rfl, .inl hne, hwhole, hfraction⟩
    · rw [List.mem_singleton.1 hc]
      exact .inr ⟨[], fraction, rfl, .inr hne, rfl, hfraction⟩
  · rintro (⟨hne, hcs⟩ | ⟨whole, fraction, rfl, hne, hwhole, hfraction⟩)
    · exact .inl ⟨cs, ⟨hne, hcs⟩, [], .inl rfl, List.append_nil cs⟩
    · cases whole with
      | nil =>
        have hfraction' : fraction ≠ [] := hne.resolve_left (fun h => h rfl)
        exact .inr ⟨'.', List.mem_singleton_self _, fraction, ⟨hfraction', hfraction⟩, rfl⟩
      | cons c rest =>
        exact .inl ⟨c :: rest, ⟨List.cons_ne_nil c rest, hwhole⟩, '.' :: fraction,
          .inr ⟨'.', List.mem_singleton_self _, fraction, hfraction, rfl⟩, rfl⟩

/-- There is no point among digits. -/
theorem isPoint_of_digits {cs : List Char} (h : allDigits cs = true) :
    ∀ c ∈ cs, (c == '.') = false := by
  intro c hc
  have hdigit := allDigits_iff.1 h c hc
  exact beq_false_of_ne (ne_of_mem_digits hdigit (by decide))

/-- The test of what stands before an exponent accepts exactly that: the cut is at the only point.
-/
theorem isMantissa_iff {cs : List Char} : isMantissa cs = true ↔ IsMantissa cs := by
  constructor
  · intro h
    unfold isMantissa at h
    rcases cutAt_cases (· == '.') cs with hnone | ⟨whole, c, fraction, rfl, hc, hwhole⟩
    · rw [cutAt_of_forall hnone] at h
      left
      simpa using h
    · -- the cut is at the first point; a second one is among what should be digits
      rw [cutAt_append hwhole hc] at h
      right
      refine ⟨whole, fraction, by rw [beq_iff_eq.1 hc], ?_⟩
      simpa [and_assoc, or_iff_not_imp_left] using h
  · rintro (⟨hne, hcs⟩ | ⟨whole, fraction, rfl, hne, hwhole, hfraction⟩)
    · unfold isMantissa
      rw [cutAt_of_forall (isPoint_of_digits hcs)]
      simp [hne, hcs]
    · unfold isMantissa
      rw [cutAt_append (isPoint_of_digits hwhole) rfl]
      simpa [hwhole, hfraction, or_iff_not_imp_left] using hne

/-- The characters of a mantissa. -/
theorem IsMantissa.mem {cs : List Char} (h : IsMantissa cs) : ∀ c ∈ cs, c ∈ digits ∨ c = '.' := by
  intro c hc
  rcases h with ⟨-, hcs⟩ | ⟨whole, fraction, rfl, -, hwhole, hfraction⟩
  · exact .inl (allDigits_iff.1 hcs c hc)
  · rcases List.mem_append.1 hc with hc | hc
    · exact .inl (allDigits_iff.1 hwhole c hc)
    · rcases List.mem_cons.1 hc with rfl | hc
      · exact .inr rfl
      · exact .inl (allDigits_iff.1 hfraction c hc)

def isMark (c : Char) : Bool := c == 'e' || c == 'E'

theorem isMark_iff {c : Char} : isMark c = true ↔ c ∈ ['e', 'E'] := by
  simp [isMark]

/-- There is no mark of an exponent in what stands before one. -/
theorem isMark_of_mantissa {cs : List Char} (h : IsMantissa cs) : ∀ c ∈ cs, isMark c = false := by
  intro c hc
  rcases h.mem c hc with hdigit | rfl
  · have he := ne_of_mem_digits hdigit (d := 'e') (by decide)
    have hE := ne_of_mem_digits hdigit (d := 'E') (by decide)
    simp [isMark, he, hE]
  · rfl

/-- The test of a text whose sign has been dropped. -/
def isUnsigned (cs : List Char) : Bool :=
  match cutAt isMark cs with
  | (mantissa, none) => isMantissa mantissa
  | (mantissa, some exponent) => isMantissa mantissa && isExponent exponent

theorem isNumeral_eq (s : String) : isNumeral s = isUnsigned (unsigned s.toList) := rfl

/-- A mantissa alone, or with an exponent after a mark. -/
theorem mem_unsignedNumeral {cs : List Char} :
    cs ∈ unsignedNumeral.matches' ↔ IsMantissa cs
      ∨ ∃ before mark after, cs = before ++ mark :: after ∧ IsMantissa before
          ∧ mark ∈ ['e', 'E'] ∧ after ∈ signedDigits.matches' := by
  rw [unsignedNumeral, RegularExpression.matches'_mul, Language.mem_mul]
  simp only [mem_mantissa, mem_optional, mem_oneOf_mul]
  constructor
  · rintro ⟨before, hbefore, rest, rfl | ⟨mark, hmark, after, hafter, rfl⟩, rfl⟩
    · rw [List.append_nil]
      exact .inl hbefore
    · exact .inr ⟨before, mark, after, rfl, hbefore, hmark, hafter⟩
  · rintro (h | ⟨before, mark, after, rfl, hbefore, hmark, hafter⟩)
    · exact ⟨cs, h, [], .inl rfl, List.append_nil cs⟩
    · exact ⟨before, hbefore, mark :: after, .inr ⟨mark, hmark, after, hafter, rfl⟩, rfl⟩

/-- Behind the sign, the test accepts what the expression matches: the cut is at the first mark, and
a second one would be refused as part of the exponent. -/
theorem isUnsigned_iff {cs : List Char} :
    isUnsigned cs = true ↔ cs ∈ unsignedNumeral.matches' := by
  rw [mem_unsignedNumeral]
  constructor
  · intro h
    unfold isUnsigned at h
    -- the cut says which of the two forms it is
    rcases cutAt_cases isMark cs with hnone | ⟨before, mark, after, rfl, hmark, hbefore⟩
    · rw [cutAt_of_forall hnone] at h
      exact .inl (isMantissa_iff.1 h)
    · rw [cutAt_append hbefore hmark, Bool.and_eq_true] at h
      exact .inr ⟨before, mark, after, rfl, isMantissa_iff.1 h.1, isMark_iff.1 hmark,
        isExponent_iff.1 h.2⟩
  · rintro (h | ⟨before, mark, after, rfl, hbefore, hmark, hafter⟩)
    · unfold isUnsigned
      rw [cutAt_of_forall (isMark_of_mantissa h)]
      exact isMantissa_iff.2 h
    · unfold isUnsigned
      rw [cutAt_append (isMark_of_mantissa hbefore) (isMark_iff.2 hmark), Bool.and_eq_true]
      exact ⟨isMantissa_iff.2 hbefore, isExponent_iff.2 hafter⟩

/-- There is always a digit before the exponent. -/
theorem IsMantissa.ne_nil {cs : List Char} (h : IsMantissa cs) : cs ≠ [] := by
  rcases h with ⟨hne, -⟩ | ⟨whole, fraction, rfl, -⟩
  · exact hne
  · simp

/-- A mantissa begins with a digit or a point. -/
theorem unsigned_of_mem {cs : List Char} (h : cs ∈ unsignedNumeral.matches') : Unsigned cs := by
  have hmantissa {before after : List Char} (hm : IsMantissa before) :
      Unsigned (before ++ after) := by
    intro c hc
    rw [List.head?_append_of_ne_nil _ hm.ne_nil] at hc
    rcases hm.mem c (List.mem_of_mem_head? hc) with hdigit | rfl
    · exact ⟨ne_of_mem_digits hdigit (by decide), ne_of_mem_digits hdigit (by decide)⟩
    · decide
  rcases mem_unsignedNumeral.1 h with h | ⟨before, mark, after, rfl, hbefore, -, -⟩
  · have hunsigned : Unsigned (cs ++ []) := hmantissa h
    rwa [List.append_nil] at hunsigned
  · exact hmantissa hbefore

/-- The test accepts exactly the literals. -/
theorem isNumeral_iff {s : String} : isNumeral s = true ↔ s.toList ∈ numeral.matches' := by
  rw [isNumeral_eq, isUnsigned_iff, numeral]
  exact (mem_iff_unsigned fun rest hrest => unsigned_of_mem hrest).symm

/-! ## Characters of literals -/

/-- How a literal is spelled. -/
structure Spelled (cs : List Char) : Prop where
  digit : ∃ c ∈ cs, c ∈ digits
  known : ∀ c ∈ cs, c ∈ digits ∨ c ∈ ['.', '+', '-', 'e', 'E']
  onePoint : cs.count '.' ≤ 1
  oneMark : cs.countP isMark ≤ 1
  /-- A sign that is not the first character follows the mark of the exponent. -/
  signs : cs.IsChain fun a c => c ∈ ['+', '-'] → a ∈ ['e', 'E']

section

variable {cs first rest : List Char}

/-- A sign is one character at most, so what is behind the first character is behind the sign. -/
theorem IsSign.mem_tail (h : IsSign first) : ∀ c ∈ (first ++ rest).tail, c ∈ rest := by
  intro c hc
  rcases h with rfl | ⟨d, -, rfl⟩
  · exact List.mem_of_mem_tail hc
  · exact hc

/-- Signs stand first or after marks where all others stand first. -/
theorem isChain_of_tail (h : ∀ c ∈ cs.tail, c ∉ ['+', '-']) :
    cs.IsChain fun a c => c ∈ ['+', '-'] → a ∈ ['e', 'E'] := by
  induction cs with
  | nil => exact List.isChain_nil
  | cons a rest ih =>
    refine List.isChain_cons.2 ⟨fun c hc hsign => ?_, ih fun c hc => ?_⟩
    · exact absurd hsign (h c (List.mem_of_mem_head? hc))
    · exact h c (List.mem_of_mem_tail hc)

/-- The characters of a sign are signs. -/
theorem IsSign.mem (h : IsSign first) : ∀ c ∈ first, c ∈ ['+', '-'] := by
  intro c hc
  rcases h with rfl | ⟨d, hd, rfl⟩
  · cases hc
  · rw [List.mem_singleton.1 hc]
    exact hd

/-- Digits and signs are neither points nor marks. -/
theorem not_mem_of_plain {c : Char} (h : c ∈ digits ∨ c ∈ ['+', '-']) : c ∉ ['.', 'e', 'E'] := by
  have hall : ∀ c ∈ digits ++ ['+', '-'], c ∉ ['.', 'e', 'E'] := by simp [digits]
  exact hall c (List.mem_append.2 h)

/-- Digits and signs contain no point and no mark. -/
theorem counts_of_plain (h : ∀ c ∈ cs, c ∈ digits ∨ c ∈ ['+', '-']) :
    cs.count '.' = 0 ∧ cs.countP isMark = 0 := by
  refine ⟨List.count_eq_zero.2 fun hc => ?_, List.countP_eq_zero.2 fun c hc hmark => ?_⟩
  · exact not_mem_of_plain (h _ hc) List.mem_cons_self
  · exact not_mem_of_plain (h c hc) (List.mem_cons_of_mem _ (isMark_iff.1 hmark))

/-- What stands before an exponent has at most one point and no mark. -/
theorem counts_of_mantissa (h : IsMantissa cs) : cs.count '.' ≤ 1 ∧ cs.countP isMark = 0 := by
  constructor
  · have hdigits {ds : List Char} (hds : allDigits ds = true) : ds.count '.' = 0 :=
      (counts_of_plain fun c hc => .inl (allDigits_iff.1 hds c hc)).1
    rcases h with ⟨-, hcs⟩ | ⟨whole, fraction, rfl, -, hwhole, hfraction⟩
    · rw [hdigits hcs]
      exact Nat.zero_le 1
    · rw [List.count_append, List.count_cons_self, hdigits hwhole, hdigits hfraction]
  · refine List.countP_eq_zero.2 fun c hc => ?_
    rw [isMark_of_mantissa h c hc]
    exact Bool.false_ne_true

/-- What stands before an exponent has a digit. -/
theorem exists_digit_of_mantissa (h : IsMantissa cs) : ∃ c ∈ cs, c ∈ digits := by
  have hfirst {ds : List Char} (hne : ds ≠ []) (hds : allDigits ds = true) :
      ∃ c ∈ ds, c ∈ digits :=
    ⟨ds.head hne, List.head_mem hne, allDigits_iff.1 hds _ (List.head_mem hne)⟩
  rcases h with ⟨hne, hcs⟩ | ⟨whole, fraction, rfl, hne | hne, hwhole, hfraction⟩
  · exact hfirst hne hcs
  · obtain ⟨c, hc, hdigit⟩ := hfirst hne hwhole
    exact ⟨c, List.mem_append_left _ hc, hdigit⟩
  · obtain ⟨c, hc, hdigit⟩ := hfirst hne hfraction
    exact ⟨c, List.mem_append_right _ (List.mem_cons_of_mem _ hc), hdigit⟩

/-- What stands before an exponent has no sign in it. -/
theorem not_sign_of_mantissa (h : IsMantissa cs) : ∀ c ∈ cs, c ∉ ['+', '-'] := by
  have hall : ∀ c ∈ digits ++ ['.'], c ∉ ['+', '-'] := by simp [digits]
  intro c hc
  rcases h.mem c hc with hdigit | rfl
  · exact hall c (List.mem_append_left _ hdigit)
  · exact hall '.' (by decide)

/-- A literal without an exponent. -/
theorem spelled_of_mantissa (hfirst : IsSign first) (h : IsMantissa rest) :
    Spelled (first ++ rest) ∧ (first ++ rest).countP isMark = 0 := by
  obtain ⟨hpoint, hmark⟩ := counts_of_plain fun c hc => .inr (hfirst.mem c hc)
  obtain ⟨hpoint', hmark'⟩ := counts_of_mantissa h
  have hmarks : (first ++ rest).countP isMark = 0 := by
    rw [List.countP_append, hmark, hmark']
  -- a digit, no other characters, at most one point, at most one mark, and signs only in front
  refine ⟨⟨?_, fun c hc => ?_, ?_, ?_, ?_⟩, hmarks⟩
  · obtain ⟨c, hc, hdigit⟩ := exists_digit_of_mantissa h
    exact ⟨c, List.mem_append_right _ hc, hdigit⟩
  · rcases List.mem_append.1 hc with hc | hc
    · exact .inr (List.mem_cons_of_mem _ (List.mem_append_left ['e', 'E'] (hfirst.mem c hc)))
    · rcases h.mem c hc with hdigit | rfl
      · exact .inl hdigit
      · exact .inr List.mem_cons_self
  · rw [List.count_append, hpoint, Nat.zero_add]
    exact hpoint'
  · rw [hmarks]
    exact Nat.zero_le 1
  · exact isChain_of_tail fun c hc => not_sign_of_mantissa h c (hfirst.mem_tail c hc)

/-- An exponent after it brings one mark, and a sign only after the mark. -/
theorem Spelled.withExponent {mark : Char} (h : Spelled cs) (hmarks : cs.countP isMark = 0)
    (hmark : mark ∈ ['e', 'E']) (hrest : rest ∈ signedDigits.matches') :
    Spelled (cs ++ mark :: rest) := by
  obtain ⟨first, hfirst, ds, hds, rfl⟩ := mem_optional_sign_mul.1 hrest
  obtain ⟨-, hdigits⟩ := mem_oneOrMore_oneOf.1 hds
  have hplain : ∀ c ∈ first ++ ds, c ∈ digits ∨ c ∈ ['+', '-'] := fun c hc =>
    (List.mem_append.1 hc).elim (fun hc => .inr (hfirst.mem c hc)) fun hc => .inl (hdigits c hc)
  obtain ⟨hpoint, hmarks'⟩ := counts_of_plain hplain
  have hpointless : mark ≠ '.' := by
    rcases List.mem_pair.1 hmark with rfl | rfl <;> decide
  refine ⟨?_, fun c hc => ?_, ?_, ?_, ?_⟩
  · obtain ⟨c, hc, hdigit⟩ := h.digit
    exact ⟨c, List.mem_append_left _ hc, hdigit⟩
  · rcases List.mem_append.1 hc with hc | hc
    · exact h.known c hc
    · rcases List.mem_cons.1 hc with rfl | hc
      · exact .inr (List.mem_append_right ['.', '+', '-'] hmark)
      · exact (hplain c hc).imp_right fun hsign =>
          List.mem_cons_of_mem _ (List.mem_append_left ['e', 'E'] hsign)
  · rw [List.count_append, List.count_cons_of_ne hpointless, hpoint]
    exact h.onePoint
  · rw [List.countP_append, List.countP_cons_of_pos (isMark_iff.2 hmark), hmarks, hmarks']
  · refine List.isChain_append.2 ⟨h.signs, List.isChain_cons.2 ⟨fun _ _ _ => hmark, ?_⟩, ?_⟩
    · -- behind the mark only the first character can be a sign
      refine isChain_of_tail fun c hc hsign => ?_
      exact ne_of_mem_digits (hdigits c (hfirst.mem_tail c hc))
        (List.mem_cons_of_mem _ (List.mem_append_left ['e', 'E'] hsign)) rfl
    · rintro a - c hc hsign
      cases hc
      rcases List.mem_pair.1 hmark with rfl | rfl <;> simp at hsign

/-- Every literal has a digit, no unknown character, at most one point and one mark, and signs only
in front or behind the mark. -/
theorem spelled_of_mem (h : cs ∈ numeral.matches') : Spelled cs := by
  obtain ⟨first, hfirst, rest, hrest, rfl⟩ := mem_optional_sign_mul.1 h
  rcases mem_unsignedNumeral.1 hrest with hmantissa | ⟨before, mark, after, rfl, hbefore, hmark, hafter⟩
  · exact (spelled_of_mantissa hfirst hmantissa).1
  · obtain ⟨hspelled, hmarks⟩ := spelled_of_mantissa hfirst hbefore
    rw [← List.append_assoc]
    exact hspelled.withExponent hmarks hmark hafter

end

/-! ## Integers -/

/-- Every integer, written in decimal with its sign if it is negative, is a literal. -/
theorem isNumeral_intText (n : Int) : isNumeral (intText n) = true := by
  have hdigits (n : Nat) : IsMantissa (Nat.toDigits 10 n) :=
    .inl ⟨(isDigits_toDigits n).nonempty, List.all_eq_true.2 (isDigits_toDigits n).digit⟩
  rw [isNumeral_iff, numeral, mem_optional_sign_mul]
  -- a negative integer is written as one more than the number that its constructor holds
  cases n with
  | ofNat n =>
    refine ⟨[], .inl rfl, _, mem_unsignedNumeral.2 (.inl (hdigits n)), ?_⟩
    simp [intText]
  | negSucc n =>
    refine ⟨['-'], .inr ⟨'-', by decide, rfl⟩, _,
      mem_unsignedNumeral.2 (.inl (hdigits (n + 1))), ?_⟩
    simp [intText]

/-- **Literals are recognized exactly.** A text passes the test if and only if it matches the
expression as a whole, whatever its characters. Hence the decimal text of every integer passes. What
passes has a digit, and consists of the ten digits, a point, signs and the marks of exponents; there
is at most one point and at most one mark, and a sign stands nowhere but in front of everything or
right after the mark. -/
theorem numerals_exact :
    (∀ s, isNumeral s = true ↔ s.toList ∈ numeral.matches')
      ∧ (∀ n, isNumeral (intText n) = true)
      ∧ ∀ s, isNumeral s = true → Spelled s.toList :=
  ⟨fun _ => isNumeral_iff, isNumeral_intText, fun _ h => spelled_of_mem (isNumeral_iff.1 h)⟩

/-- Both signs, a point with no digit before it, and an exponent with a leading zero. -/
theorem numerals_exact_signs :
    isNumeral "-.5E+03" = true ∧ "-.5E+03".toList ∈ numeral.matches' ∧ Spelled "-.5E+03".toList := by
  -- the test is run here; the rest is what it means
  have accepted : isNumeral "-.5E+03" = true := by decide
  obtain ⟨exact, -, spelled⟩ := numerals_exact
  exact ⟨accepted, (exact _).1 accepted, spelled _ accepted⟩

example : ["", "NaN", "inf", "-", ".", "1.2.3", "1e2e3", "1-2", "1e", "1 ", "١"].any isNumeral = false :=
  by decide

end TableQuery.Decimal
