import Mathlib.Data.List.Sort
import Mathlib.Data.String.Basic
import TableQuery.Proofs.OrderedMap

/-!
# Names in the order of their bytes

A generic value keeps the members of an object in the order of the bytes of their names. Comparing
names by code points comes to the same, since the encoding of characters keeps their order
(`bytes_lt_bytes`).

`sortEntries` puts entries into that order, and `OrderedMap.byBytes` the entries of a map. With
different names there is only one way to do so (`eq_sortEntries`), and nothing is found under
another name than before (`get?_byBytes`).
-/

namespace TableQuery

/-! ## The bytes of a text -/

/-- The UTF-8 encoding of a text. -/
def bytes (text : String) : List UInt8 := text.toUTF8.data.toList

/-- The bytes of a text are those of its characters, one after the other. -/
theorem bytes_eq (text : String) : bytes text = text.toList.flatMap String.utf8EncodeChar := by
  have hencode : text.toUTF8 = (text.toList.flatMap String.utf8EncodeChar).toByteArray := by
    show text.toByteArray = text.toList.utf8Encode
    rw [← String.toByteArray_ofList, String.ofList_toList]
  rw [bytes, hencode, List.data_toByteArray]

section

variable {m n : Nat}

/-- The first byte decides if it is different. -/
theorem ofNat_cons_lt (hn : n < 256) (h : m < n) (x y : List UInt8) :
    UInt8.ofNat m :: x < UInt8.ofNat n :: y := by
  refine List.cons_lt_cons_iff.2 (.inl ?_)
  rw [UInt8.lt_iff_toNat_lt, UInt8.toNat_ofNat', UInt8.toNat_ofNat']
  omega

/-- Digits to the base 64 decide from the first on: one more digit decides where those before are
the same. -/
theorem digit_lt {p q : List UInt8} (hlt : m / 64 < n / 64 → ∀ x y, p ++ x < q ++ y)
    (heq : m / 64 = n / 64 → p = q) (h : m < n) (x y : List UInt8) :
    p ++ UInt8.ofNat (m % 64 + 128) :: x < q ++ UInt8.ofNat (n % 64 + 128) :: y := by
  by_cases hq : m / 64 = n / 64
  · rw [heq hq]
    exact List.append_left_lt (ofNat_cons_lt (by omega) (by omega) x y)
  · exact hlt (by omega) _ _

/-- Characters of two bytes are ordered by their codes. -/
theorem two_bytes_lt (hn : n ≤ 2047) (h : m < n) (x y : List UInt8) :
    UInt8.ofNat (m / 64 % 32 + 192) :: UInt8.ofNat (m % 64 + 128) :: x
      < UInt8.ofNat (n / 64 % 32 + 192) :: UInt8.ofNat (n % 64 + 128) :: y :=
  digit_lt (p := [_]) (q := [_]) (fun h => ofNat_cons_lt (by omega) (by omega))
    (fun h => by rw [h]) h x y

/-- Characters of three bytes are ordered by their codes. -/
theorem three_bytes_lt (hn : n ≤ 65535) (h : m < n) (x y : List UInt8) :
    UInt8.ofNat (m / 4096 % 16 + 224) :: UInt8.ofNat (m / 64 % 64 + 128)
        :: UInt8.ofNat (m % 64 + 128) :: x
      < UInt8.ofNat (n / 4096 % 16 + 224) :: UInt8.ofNat (n / 64 % 64 + 128)
        :: UInt8.ofNat (n % 64 + 128) :: y := by
  -- the code is read in digits to the base of 64, the last of which is compared last
  rw [show m / 4096 = m / 64 / 64 by omega, show n / 4096 = n / 64 / 64 by omega]
  refine digit_lt (p := [_, _]) (q := [_, _]) ?_ (fun h => by rw [h]) h x y
  exact digit_lt (p := [_]) (q := [_]) (fun h => ofNat_cons_lt (by omega) (by omega))
    fun h => by rw [h]

/-- Characters of four bytes are ordered by their codes. -/
theorem four_bytes_lt (hn : n < 0x110000) (h : m < n) (x y : List UInt8) :
    UInt8.ofNat (m / 262144 % 8 + 240) :: UInt8.ofNat (m / 4096 % 64 + 128)
        :: UInt8.ofNat (m / 64 % 64 + 128) :: UInt8.ofNat (m % 64 + 128) :: x
      < UInt8.ofNat (n / 262144 % 8 + 240) :: UInt8.ofNat (n / 4096 % 64 + 128)
        :: UInt8.ofNat (n / 64 % 64 + 128) :: UInt8.ofNat (n % 64 + 128) :: y := by
  rw [show m / 262144 = m / 64 / 64 / 64 by omega, show m / 4096 = m / 64 / 64 by omega,
    show n / 262144 = n / 64 / 64 / 64 by omega, show n / 4096 = n / 64 / 64 by omega]
  refine digit_lt (p := [_, _, _]) (q := [_, _, _]) ?_ (fun h => by rw [h]) h x y
  refine digit_lt (p := [_, _]) (q := [_, _]) ?_ fun h => by rw [h]
  exact digit_lt (p := [_]) (q := [_]) (fun h => ofNat_cons_lt (by omega) (by omega))
    fun h => by rw [h]

end

/-- The encoding of a smaller character is smaller, whatever follows the two. A shorter encoding
begins with a smaller byte; encodings of one length are compared digit by digit. -/
theorem utf8EncodeChar_lt {c d : Char} (h : c < d) (x y : List UInt8) :
    String.utf8EncodeChar c ++ x < String.utf8EncodeChar d ++ y := by
  have hlt : c.val.toNat < d.val.toNat := h
  have hmax : d.val.toNat < 0x110000 := by
    rcases d.valid with hlow | ⟨-, hhigh⟩
    · exact hlow.trans (by decide)
    · exact hhigh
  unfold String.utf8EncodeChar
  generalize c.val.toNat = m at hlt ⊢
  generalize d.val.toNat = n at hlt hmax ⊢
  simp only []
  -- a shorter encoding begins with a smaller byte; those of one length are compared in their bytes
  by_cases hone : n ≤ 127
  · rw [if_pos (show m ≤ 127 by omega), if_pos hone]
    exact ofNat_cons_lt (by omega) hlt _ _
  rw [if_neg hone]
  by_cases htwo : n ≤ 2047
  · rw [if_pos htwo]
    split
    · exact ofNat_cons_lt (by omega) (by omega) _ _
    · rw [if_pos (show m ≤ 2047 by omega)]
      exact two_bytes_lt htwo hlt x y
  rw [if_neg htwo]
  by_cases hthree : n ≤ 65535
  · rw [if_pos hthree]
    split
    · exact ofNat_cons_lt (by omega) (by omega) _ _
    · split
      · exact ofNat_cons_lt (by omega) (by omega) _ _
      · rw [if_pos (show m ≤ 65535 by omega)]
        exact three_bytes_lt hthree hlt x y
  · rw [if_neg hthree]
    split
    · exact ofNat_cons_lt (by omega) (by omega) _ _
    · split
      · exact ofNat_cons_lt (by omega) (by omega) _ _
      · split
        · exact ofNat_cons_lt (by omega) (by omega) _ _
        · exact four_bytes_lt hmax hlt x y

theorem utf8EncodeChar_ne_nil (c : Char) : String.utf8EncodeChar c ≠ [] := by
  unfold String.utf8EncodeChar
  simp only []
  split_ifs <;> exact List.cons_ne_nil _ _

/-- A text that comes first comes first in bytes. -/
theorem bytes_lt_of_lt {s t : String} (h : s < t) : bytes s < bytes t := by
  rw [String.lt_iff_toList_lt] at h
  rw [bytes_eq, bytes_eq]
  generalize s.toList = cs at h ⊢
  generalize t.toList = ds at h ⊢
  induction cs generalizing ds with
  | nil =>
    cases ds with
    | nil => exact absurd h (List.not_lt_nil _)
    | cons d ds =>
      rw [List.flatMap_cons]
      cases hd : String.utf8EncodeChar d with
      | nil => exact absurd hd (utf8EncodeChar_ne_nil d)
      | cons b bs => exact List.nil_lt_cons _ _
  | cons c cs ih =>
    cases ds with
    | nil => exact absurd h (List.not_lt_nil _)
    | cons d ds =>
      rw [List.flatMap_cons, List.flatMap_cons]
      -- the first characters decide, or they are the same
      rcases List.cons_lt_cons_iff.1 h with hlt | ⟨rfl, hrest⟩
      · exact utf8EncodeChar_lt hlt _ _
      · exact List.append_left_lt (ih ds hrest)

/-- **Byte order is the order of code points.** -/
theorem bytes_lt_bytes {s t : String} : bytes s < bytes t ↔ s < t := by
  refine ⟨fun h => ?_, bytes_lt_of_lt⟩
  rcases lt_trichotomy s t with hlt | rfl | hgt
  · exact hlt
  · exact absurd h (List.lt_irrefl _)
  · exact absurd h (List.lt_asymm (bytes_lt_of_lt hgt))

theorem bytes_le_bytes {s t : String} : bytes s ≤ bytes t ↔ s ≤ t := by
  rw [← not_lt, ← bytes_lt_bytes, List.not_lt]

/-! ## Entries in order -/

variable {α β : Type}

/-- The bytes of the one name do not come after those of the other. -/
def NameLe (a b : String × α) : Prop := bytes a.1 ≤ bytes b.1

instance : DecidableRel (@NameLe α) := fun a b =>
  inferInstanceAs (Decidable (bytes a.1 ≤ bytes b.1))

instance : Std.Total (@NameLe α) := ⟨fun _ _ => List.le_total _ _⟩

instance : IsTrans (String × α) NameLe := ⟨fun _ _ _ => List.le_trans⟩

/-- The entries in the order of the bytes of their names. -/
def sortEntries (es : List (String × α)) : List (String × α) := es.insertionSort NameLe

theorem sortEntries_perm (es : List (String × α)) : (sortEntries es).Perm es :=
  List.perm_insertionSort _ es

/-- Different names stand in strict order. -/
theorem sortEntries_inOrder {es : List (String × α)} (h : (es.map (·.1)).Nodup) :
    (sortEntries es).Pairwise fun a b => a.1 < b.1 := by
  have hsorted : (sortEntries es).Pairwise NameLe := List.pairwise_insertionSort NameLe es
  have hnames : ((sortEntries es).map (·.1)).Nodup := ((sortEntries_perm es).map _).nodup_iff.2 h
  refine (hsorted.and (List.pairwise_map.1 hnames)).imp fun ⟨hle, hne⟩ => ?_
  exact lt_of_le_of_ne (bytes_le_bytes.1 hle) hne

/-- **There is one way to put entries with different names into order.** -/
theorem eq_sortEntries {es ds : List (String × α)} (perm : ds.Perm es)
    (order : ds.Pairwise fun a b => a.1 < b.1) : ds = sortEntries es := by
  have hnames : (es.map (·.1)).Nodup := by
    refine (perm.map _).nodup_iff.1 (List.pairwise_map.2 ?_)
    exact order.imp fun hlt => hlt.ne
  refine (perm.trans (sortEntries_perm es).symm).eq_of_pairwise ?_ order
    (sortEntries_inOrder hnames)
  exact fun a b _ _ hab hba => absurd hab hba.asymm

/-- Sorting looks at the names only. -/
theorem sortEntries_map (f : α → β) (es : List (String × α)) :
    sortEntries (es.map fun e => (e.1, f e.2)) = (sortEntries es).map fun e => (e.1, f e.2) :=
  (List.map_insertionSort NameLe NameLe (fun e : String × α => (e.1, f e.2)) es
    fun _ _ _ _ => Iff.rfl).symm

namespace OrderedMap

/-- The map with its entries in the order of the bytes of their names. -/
def byBytes (m : OrderedMap α) : OrderedMap α := ⟨sortEntries m.entries⟩

theorem Distinct.byBytes {m : OrderedMap α} (h : m.Distinct) : m.byBytes.Distinct :=
  ((sortEntries_perm m.entries).map _).nodup_iff.2 h

theorem byBytes_of_isEmpty {m : OrderedMap α} (h : m.isEmpty) : m.byBytes = ∅ := by
  rw [eq_empty_of_isEmpty h]
  rfl

/-- A map without entries is in order, whatever is done with its values. -/
theorem byBytes_mapValues_of_isEmpty {m : OrderedMap α} (f : α → β) (h : m.isEmpty) :
    (m.mapValues f).byBytes = ∅ := by
  rw [eq_empty_of_isEmpty h]
  rfl

theorem size_byBytes (m : OrderedMap α) : m.byBytes.size = m.size :=
  (sortEntries_perm m.entries).length_eq

/-- Sorting does not change what is found under a name. -/
theorem get?_byBytes {m : OrderedMap α} (h : m.Distinct) (key : String) :
    m.byBytes.get? key = m.get? key :=
  lookup_perm (sortEntries_perm m.entries) h.byBytes key

end OrderedMap

end TableQuery
