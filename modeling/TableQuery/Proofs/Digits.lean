import TableQuery.Decimal.Numeral

/-!
# Digits of natural numbers

A natural number and its digits determine each other, as long as the digits do not begin with a zero
that they could do without.

* **`natOfDigits_toDigits`** — the digits of a number denote it.
* **`isWhole_toDigits`** — they have no leading zero.
* **`toDigits_natOfDigits`** — and no other digits without a leading zero denote it.
-/

namespace TableQuery.Decimal

/-- At least one digit. -/
structure IsDigits (ds : List Char) : Prop where
  nonempty : ds ≠ []
  digit : ∀ d ∈ ds, d.isDigit = true

/-- Digits that do not begin with a zero, unless they are a zero. -/
structure IsWhole (ds : List Char) : Prop extends IsDigits ds where
  noLeadingZero : ∀ rest, ds = '0' :: rest → rest = []

theorem isDigits_iff {ds : List Char} : IsDigits ds ↔ (!ds.isEmpty && allDigits ds) = true := by
  rw [Bool.and_eq_true, allDigits, List.all_eq_true]
  constructor
  · intro h
    exact ⟨by simpa using h.nonempty, h.digit⟩
  · intro h
    exact ⟨by simpa using h.1, h.2⟩

/-- The digits of a number denote it. -/
theorem natOfDigits_toDigits (n : Nat) : natOfDigits (Nat.toDigits 10 n) = n :=
  Nat.ofDigitChars_ten_toDigits

theorem isDigits_toDigits (n : Nat) : IsDigits (Nat.toDigits 10 n) where
  nonempty := Nat.toDigits_ne_nil
  digit _ h := Nat.isDigit_of_mem_toDigits (by decide) (by decide) h

/-- The digits of a number have no leading zero. -/
theorem isWhole_toDigits (n : Nat) : IsWhole (Nat.toDigits 10 n) := by
  refine ⟨isDigits_toDigits n, ?_⟩
  induction n using Nat.strongRecOn with
  | ind n ih =>
    intro rest h
    by_cases hn : n < 10
    · rw [Nat.toDigits_of_lt_base hn] at h
      exact (List.cons.inj h).2.symm
    · rw [Nat.toDigits_of_base_le (by decide) (Nat.le_of_not_lt hn)] at h
      obtain ⟨d, ds, hds⟩ := List.exists_cons_of_ne_nil (isDigits_toDigits (n / 10)).nonempty
      rw [hds] at h
      cases h
      -- the digits before the last one would be a zero
      cases ih (n / 10) (by omega) ds hds
      have hzero := natOfDigits_toDigits (n / 10)
      rw [hds] at hzero
      have hvalue : natOfDigits ['0'] = 0 := rfl
      omega

theorem isDigit_iff_toNat {d : Char} : d.isDigit = true ↔ 48 ≤ d.toNat ∧ d.toNat ≤ 57 :=
  Char.isDigit_iff_toNat

theorem digitValue_lt {d : Char} (h : d.isDigit = true) : digitValue d < 10 := by
  have hd := isDigit_iff_toNat.1 h
  show d.toNat - 48 < 10
  omega

/-- A digit is the character of its value. -/
theorem digitChar_digitValue {d : Char} (h : d.isDigit = true) :
    Nat.digitChar (digitValue d) = d := by
  have hd := isDigit_iff_toNat.1 h
  apply Char.toNat_inj.1
  rw [Nat.toNat_digitChar_of_lt_ten (digitValue_lt h)]
  show 48 + (d.toNat - 48) = d.toNat
  omega

/-- Digits behind those of a number are the digits of a larger number. -/
theorem toDigits_append {n : Nat} (hn : 0 < n) {ds : List Char}
    (digit : ∀ d ∈ ds, d.isDigit = true) :
    Nat.toDigits 10 n ++ ds
      = Nat.toDigits 10 (ds.foldl (fun n d => 10 * n + digitValue d) n) := by
  induction ds generalizing n with
  | nil => rw [List.append_nil, List.foldl_nil]
  | cons d ds ih =>
    obtain ⟨hd, hds⟩ := List.forall_mem_cons.1 digit
    have hlast := Nat.toDigits_append_toDigits (b := 10) (by decide) hn (digitValue_lt hd)
    rw [Nat.toDigits_of_lt_base (digitValue_lt hd), digitChar_digitValue hd] at hlast
    rw [List.foldl_cons, ← ih (by omega) hds, ← hlast, List.append_assoc, List.singleton_append]

/-- **Digits without a leading zero** are the digits of the number that they denote. -/
theorem toDigits_natOfDigits {ds : List Char} (h : IsWhole ds) :
    Nat.toDigits 10 (natOfDigits ds) = ds := by
  obtain ⟨d, ds, rfl⟩ := List.exists_cons_of_ne_nil h.nonempty
  obtain ⟨hd, hds⟩ := List.forall_mem_cons.1 h.digit
  by_cases hzero : d = '0'
  · cases hzero
    cases h.noLeadingZero ds rfl
    rfl
  · have hpos : 0 < digitValue d := by
      have hne : d.toNat ≠ 48 := fun heq => hzero (Char.toNat_inj.1 heq)
      have hrange := isDigit_iff_toNat.1 hd
      show 0 < d.toNat - 48
      omega
    rw [natOfDigits, List.foldl_cons, Nat.mul_zero, Nat.zero_add, ← toDigits_append hpos hds,
      Nat.toDigits_of_lt_base (digitValue_lt hd), digitChar_digitValue hd, List.singleton_append]

end TableQuery.Decimal
