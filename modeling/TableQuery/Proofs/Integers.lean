import Mathlib.Data.Nat.Digits.Defs
import TableQuery.Value
import TableQuery.Proofs.Numeral

/-!
# Integers in number literals

The number literal of an integer is its decimal text, and an integer of 64 bits is read back from a
literal. What a text denotes is said here by place value: each digit counts its place among the ten
digits times the power of ten at its position. `Denotes` adds the sign.

* **`natOfDigits_eq_placeValue`** — reading the digits one by one gives their place value.
* **`int?_eq_some_iff`** — an integer is read from a text exactly if the text denotes it.
* **`denotes_intText`** — the text that is written of an integer denotes it.
* **`exists_denotes_iff`** — a number literal denotes an integer unless it has a point or an exponent.
* **`integers_read_as_written`** — integers come back as far as they fit in 64 bits, and no text gives
  an integer that it does not denote.
-/

namespace TableQuery.Decimal

/-! ## What a text denotes -/

/-- The last digit counts as it is, the one before it ten times, and so on. -/
def placeValue (ds : List Char) : Nat := Nat.ofDigits 10 (ds.reverse.map digits.idxOf)

/-- At least one digit behind at most one sign. -/
inductive Denotes : List Char → Int → Prop where
  | bare {ds : List Char} (h : IsDigits ds) : Denotes ds (placeValue ds)
  | plus {ds : List Char} (h : IsDigits ds) : Denotes ('+' :: ds) (placeValue ds)
  | minus {ds : List Char} (h : IsDigits ds) : Denotes ('-' :: ds) (-(placeValue ds : Int))

/-- The integers of 64 bits, sign included. -/
def FitsInt64 (k : Int) : Prop := -2 ^ 63 ≤ k ∧ k < 2 ^ 63

instance (k : Int) : Decidable (FitsInt64 k) := inferInstanceAs (Decidable (_ ∧ _))

/-! ## Reading -/

section

variable {ds cs : List Char} {s : String} {n : Nat} {k l : Int}

/-- The value of a digit is its place among the ten digits. -/
theorem digitValue_eq_idxOf {d : Char} (h : d.isDigit = true) : digitValue d = digits.idxOf d := by
  have hall : ∀ d ∈ digits, digitValue d = digits.idxOf d := by simp [digits, digitValue]
  exact hall d (isDigit_iff.1 h)

/-- Reading one more digit multiplies what has been read by ten. -/
theorem natOfDigits_concat (ds : List Char) (d : Char) :
    natOfDigits (ds ++ [d]) = 10 * natOfDigits ds + digitValue d := by
  rw [natOfDigits, List.foldl_append]
  rfl

/-- One more digit moves all the others to the next place. -/
theorem placeValue_concat (ds : List Char) (d : Char) :
    placeValue (ds ++ [d]) = digits.idxOf d + 10 * placeValue ds := by
  rw [placeValue, List.reverse_append, List.reverse_singleton, List.singleton_append, List.map_cons,
    Nat.ofDigits_cons]
  rfl

/-- Reading digits one by one gives their place value. -/
theorem natOfDigits_eq_placeValue (digit : ∀ d ∈ ds, d.isDigit = true) :
    natOfDigits ds = placeValue ds := by
  -- the digit that is read last is the first one of the place value
  induction ds using List.reverseRecOn with
  | nil => rfl
  | append_singleton ds d ih =>
    have hds : natOfDigits ds = placeValue ds := ih fun c hc => digit c (List.mem_append_left _ hc)
    have hd : d.isDigit = true := digit d (List.mem_append_right _ List.mem_cons_self)
    rw [natOfDigits_concat, placeValue_concat, digitValue_eq_idxOf hd, hds]
    omega

/-- A natural number is read from at least one digit, and is their place value. -/
theorem nat?_eq_some_iff : nat? ds = some n ↔ IsDigits ds ∧ placeValue ds = n := by
  rw [nat?, Option.ite_none_right_eq_some, ← isDigits_iff, Option.some.injEq]
  constructor
  · rintro ⟨h, rfl⟩
    exact ⟨h, (natOfDigits_eq_placeValue h.digit).symm⟩
  · rintro ⟨h, rfl⟩
    exact ⟨h, natOfDigits_eq_placeValue h.digit⟩

/-- The digits behind a sign, which says what becomes of their number. -/
theorem signed_eq_some_iff {sign : Int → Int} :
    Option.map sign (nat? ds) = some k ↔ IsDigits ds ∧ sign (placeValue ds) = k := by
  constructor
  · intro h
    obtain ⟨i, hi, rfl⟩ := Option.map_eq_some_iff.1 h
    obtain ⟨n, hn, hcast⟩ := Option.bind_eq_some_iff.1 hi
    obtain ⟨hds, rfl⟩ := nat?_eq_some_iff.1 hn
    cases hcast
    exact ⟨hds, rfl⟩
  · rintro ⟨hds, rfl⟩
    rw [nat?_eq_some_iff.2 ⟨hds, rfl⟩]
    rfl

/-- An integer is read from a text exactly if the text denotes it. -/
theorem int?_eq_some_iff : int? s = some k ↔ Denotes s.toList k := by
  unfold int?
  generalize s.toList = cs
  constructor
  · intro h
    split at h
    · obtain ⟨hds, rfl⟩ := signed_eq_some_iff.1 h
      exact .minus hds
    · obtain ⟨hds, rfl⟩ := signed_eq_some_iff.1 h
      exact .plus hds
    · obtain ⟨hds, rfl⟩ := signed_eq_some_iff.1 h
      exact .bare hds
  · intro h
    cases h with
    | minus hds => exact signed_eq_some_iff.2 ⟨hds, rfl⟩
    | plus hds => exact signed_eq_some_iff.2 ⟨hds, rfl⟩
    | bare hds =>
      split
      -- no digit is a sign
      · exact absurd (hds.digit '-' List.mem_cons_self) (by decide)
      · exact absurd (hds.digit '+' List.mem_cons_self) (by decide)
      · exact signed_eq_some_iff.2 ⟨hds, rfl⟩

/-- A text denotes one integer at most. -/
theorem Denotes.unique (hk : Denotes cs k) (hl : Denotes cs l) : k = l := by
  have hread {i : Int} (h : Denotes cs i) : int? (String.ofList cs) = some i := by
    rw [int?_eq_some_iff, String.toList_ofList]
    exact h
  exact Option.some.inj ((hread hk).symm.trans (hread hl))

/-- An integer of 64 bits is read from a text exactly if the text denotes it and it fits. -/
theorem int64?_eq_some_iff : int64? s = some k ↔ Denotes s.toList k ∧ FitsInt64 k := by
  have hmin : Int64.minValue.toInt = -2 ^ 63 := rfl
  have hmax : Int64.maxValue.toInt = 2 ^ 63 - 1 := rfl
  have hfits : (Int64.minValue.toInt ≤ k && k ≤ Int64.maxValue.toInt) = true ↔ FitsInt64 k := by
    rw [Bool.and_eq_true, decide_eq_true_eq, decide_eq_true_eq, hmin, hmax, FitsInt64]
    omega
  rw [int64?, Option.filter_eq_some_iff, int?_eq_some_iff, hfits]

/-- Nothing is read from a text that denotes no integer, or one that does not fit. -/
theorem int64?_eq_none_iff : int64? s = none ↔ ∀ k, Denotes s.toList k → ¬FitsInt64 k := by
  rw [Option.eq_none_iff_forall_ne_some]
  constructor
  · intro h k hk hfits
    exact h k (int64?_eq_some_iff.2 ⟨hk, hfits⟩)
  · intro h k hk
    obtain ⟨hdenotes, hfits⟩ := int64?_eq_some_iff.1 hk
    exact h k hdenotes hfits

/-- What denotes an integer is read as that integer or, if it does not fit, not at all. -/
theorem Denotes.int64?_eq (h : Denotes s.toList k) :
    int64? s = if FitsInt64 k then some k else none := by
  split
  · next hfits => exact int64?_eq_some_iff.2 ⟨h, hfits⟩
  · next hfits =>
    apply int64?_eq_none_iff.2
    intro l hl
    rw [hl.unique h]
    exact hfits

/-! ## Writing -/

/-- The digits of a number have it as their place value. -/
theorem placeValue_toDigits (n : Nat) : placeValue (Nat.toDigits 10 n) = n := by
  rw [← natOfDigits_eq_placeValue (isDigits_toDigits n).digit, natOfDigits_toDigits]

/-- The text that is written of an integer denotes it. -/
theorem denotes_intText (k : Int) : Denotes (intText k).toList k := by
  cases k with
  | ofNat n =>
    have hdenotes := Denotes.bare (isDigits_toDigits n)
    rw [placeValue_toDigits] at hdenotes
    rw [intText, String.toList_ofList]
    exact hdenotes
  | negSucc n =>
    have hdenotes := Denotes.minus (isDigits_toDigits (n + 1))
    rw [placeValue_toDigits] at hdenotes
    rw [intText, String.toList_ofList]
    exact hdenotes

/-! ## Number literals that denote no integer -/

/-- The characters of a text that denotes an integer. -/
theorem Denotes.plain (h : Denotes cs k) : ∀ c ∈ cs, c ∈ digits ∨ c ∈ ['+', '-'] := by
  have hdigits {ds : List Char} (hds : IsDigits ds) : ∀ c ∈ ds, c ∈ digits ∨ c ∈ ['+', '-'] :=
    fun c hc => .inl (isDigit_iff.1 (hds.digit c hc))
  cases h with
  | bare hds => exact hdigits hds
  | plus hds => exact List.forall_mem_cons.2 ⟨.inr (by decide), hdigits hds⟩
  | minus hds => exact List.forall_mem_cons.2 ⟨.inr (by decide), hdigits hds⟩

/-- A number literal denotes an integer unless it has a point or the mark of an exponent. -/
theorem exists_denotes_iff (h : isNumeral s = true) :
    (∃ k, Denotes s.toList k) ↔ ∀ c ∈ s.toList, c ∉ ['.', 'e', 'E'] := by
  have hnumeral := isNumeral_iff.1 h
  generalize s.toList = cs at hnumeral
  constructor
  · rintro ⟨k, hk⟩ c hc hmem
    exact not_mem_of_plain (hk.plain c hc) hmem
  · intro hplain
    obtain ⟨first, hfirst, rest, hrest, rfl⟩ := mem_optional_sign_mul.1 hnumeral
    -- what is no run of digits has a point in it or the mark of an exponent
    have hdigits : IsDigits rest := by
      rcases mem_unsignedNumeral.1 hrest with hmantissa | ⟨before, mark, after, rfl, -, hmark, -⟩
      · rcases hmantissa with ⟨hne, hdigits⟩ | ⟨whole, fraction, rfl, -⟩
        · exact ⟨hne, List.all_eq_true.1 hdigits⟩
        · exact absurd (by simp) (hplain '.' (by simp))
      · exact absurd (List.mem_cons_of_mem _ hmark) (hplain mark (by simp))
    rcases hfirst with rfl | ⟨c, hc, rfl⟩
    · exact ⟨_, .bare hdigits⟩
    · rcases List.mem_pair.1 hc with rfl | rfl
      · exact ⟨_, .plus hdigits⟩
      · exact ⟨_, .minus hdigits⟩

/-- A number literal from which no integer is read. -/
theorem int64?_eq_none_iff_of_isNumeral (h : isNumeral s = true) :
    int64? s = none
      ↔ (∃ c ∈ s.toList, c ∈ ['.', 'e', 'E']) ∨ ∃ k, Denotes s.toList k ∧ ¬FitsInt64 k := by
  rw [int64?_eq_none_iff]
  constructor
  · intro hnone
    by_cases hplain : ∀ c ∈ s.toList, c ∉ ['.', 'e', 'E']
    · obtain ⟨k, hk⟩ := (exists_denotes_iff h).2 hplain
      exact .inr ⟨k, hk, hnone k hk⟩
    · push Not at hplain
      exact .inl hplain
  · rintro (⟨c, hc, hmem⟩ | ⟨l, hl, hfits⟩) k hk
    · exact absurd hmem ((exists_denotes_iff h).1 ⟨k, hk⟩ c hc)
    · rw [hk.unique hl]
      exact hfits

end

end TableQuery.Decimal

namespace TableQuery

open Decimal (Denotes FitsInt64 isNumeral)

/-- **Integers are read as they are written.** An integer, whatever its width, becomes a number whose
literal the store takes and which denotes it; it is read back from there if it has 64 bits, and
otherwise nothing is. A text is read as an integer exactly if it is one sign at most and digits behind
it, which may begin with zeros, that denote this integer, and the integer has 64 bits. So nothing is
read from a number literal in two cases: it has a point or an exponent, or what it denotes has more
bits. No integer is ever read that is not the one denoted. -/
theorem integers_read_as_written :
    (∀ n : Int, ∃ literal, Value.ofInt n = .number literal ∧ isNumeral literal = true
        ∧ Denotes literal.toList n
        ∧ (Value.ofInt n).int64? = if FitsInt64 n then some n else none)
      ∧ (∀ s k, (Value.number s).int64? = some k ↔ Denotes s.toList k ∧ FitsInt64 k)
      ∧ ∀ s, isNumeral s = true →
          ((Value.number s).int64? = none
            ↔ (∃ c ∈ s.toList, c ∈ ['.', 'e', 'E']) ∨ ∃ k, Denotes s.toList k ∧ ¬FitsInt64 k) := by
  refine ⟨fun n => ?_, fun s k => Decimal.int64?_eq_some_iff, fun s hs => ?_⟩
  · have hdenotes : Denotes (Decimal.intText n).toList n := Decimal.denotes_intText n
    exact ⟨_, rfl, Decimal.isNumeral_intText n, hdenotes, hdenotes.int64?_eq⟩
  · show Decimal.int64? s = none ↔ _
    exact Decimal.int64?_eq_none_iff_of_isNumeral hs

/-- The least integer with zeros before it, the first that is too large, written and read, and a
literal with an exponent. -/
theorem integers_read_as_written_limits :
    (Value.number "-009223372036854775808").int64? = some (-2 ^ 63)
      ∧ (Value.ofInt (2 ^ 63)).int64? = none
      ∧ isNumeral "+9223372036854775808" = true
      ∧ (Value.number "+9223372036854775808").int64? = none
      ∧ isNumeral "1e2" = true ∧ (Value.number "1e2").int64? = none := by
  obtain ⟨written, read, unread⟩ := integers_read_as_written
  have zeros : Decimal.IsDigits "009223372036854775808".toList := Decimal.isDigits_iff.2 (by decide)
  have least : Denotes "-009223372036854775808".toList (-2 ^ 63) := .minus zeros
  have bare : Decimal.IsDigits "9223372036854775808".toList := Decimal.isDigits_iff.2 (by decide)
  have beyond : Denotes "+9223372036854775808".toList (2 ^ 63) := .plus bare
  have wide : isNumeral "+9223372036854775808" = true := by decide
  have exponent : isNumeral "1e2" = true := by decide
  obtain ⟨-, -, -, -, hwritten⟩ := written (2 ^ 63)
  exact ⟨(read _ _).2 ⟨least, by decide⟩, hwritten, wide,
    (unread _ wide).2 (.inr ⟨2 ^ 63, beyond, by decide⟩), exponent,
    (unread _ exponent).2 (.inl ⟨'e', by decide, by decide⟩)⟩

end TableQuery
