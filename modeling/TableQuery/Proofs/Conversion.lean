import TableQuery.Proofs.JsonText.Accepted
import TableQuery.Proofs.JsonText.Printed
import TableQuery.Proofs.SortedForm

/-!
# Values of JSON texts

A value is made of a text by way of the generic value of its document, which has the members of
every object in the order of their names, and its numbers as numbers. So what is made is the value
that stands in the text, sorted, and with each number literal replaced by the text of its number
(`Numeral.reprinted`). It is what stands in the text only if sorting and reprinting change nothing.

* **`Value.ofJson_canonical`** — the value of a generic value is sorted.
* **`ofJson_document`** — the value of a document is what stands in the text, but for its literals.
* **`sorted_value_iff`** — when sorting and reprinting change nothing.
* **`reprinted_iff`** — which integers are reprinted as they are written.
* **`conversion_exact`** — what is made of every text that is read.
* **`document_order_lost`** — the order of the members is not always kept.
-/

namespace TableQuery

/-! ## Values of generic values -/

namespace Value

/-- The entries of a value are made of the members one by one. -/
theorem ofMembers_eq (ms : List (String × Json)) :
    ofMembers ms = ms.map fun m => (m.1, ofJson m.2) := by
  induction ms with
  | nil => rfl
  | cons m rest ih => rw [ofMembers, ih]; rfl

theorem map_fst_ofMembers (ms : List (String × Json)) :
    (ofMembers ms).map (·.1) = ms.map (·.1) := by
  rw [ofMembers_eq, List.map_map]
  rfl

mutual

/-- **The value of a generic value** is sorted. -/
theorem ofJson_canonical : ∀ j : Json, j.Distinct → ofJson j.canonical = (ofJson j).sorted
  | .null, _ => rfl
  | .bool _, _ => rfl
  | .number _, _ => rfl
  | .string _, _ => rfl
  | .array elements, h => by
    rw [Json.canonical, ofJson, ofJson, sorted, ofElements_canonical elements h]
  | .object members, h => by
    -- no name is met twice, so no member of the map is overwritten, sorted or not
    have names : ((Json.canonicalMembers members).map (·.1)).Nodup := by
      rw [Json.map_fst_canonicalMembers]
      exact h.1
    have sortedNames : ((ofMembers (Json.sortMembers (Json.canonicalMembers members))).map
        (·.1)).Nodup := by
      rw [map_fst_ofMembers]
      exact (Json.sortMembers_inOrder _).nodup
    have plainNames : ((ofMembers members).map (·.1)).Nodup := by
      rw [map_fst_ofMembers]
      exact h.1
    rw [Json.canonical, ofJson, ofJson, OrderedMap.ofList_of_nodup sortedNames,
      OrderedMap.ofList_of_nodup plainNames, sorted, Json.sortMembers_eq names, ofMembers_eq,
      ← sortEntries_map, ← ofMembers_eq, ofMembers_canonical members h.2]

/-- Elements are sorted like the documents that they are made of. -/
theorem ofElements_canonical : ∀ js : List Json, Json.DistinctElements js →
    ofElements (Json.canonicalElements js) = sortedElements (ofElements js)
  | [], _ => rfl
  | j :: rest, h => by
    rw [Json.canonicalElements, ofElements, ofElements, sortedElements, ofJson_canonical j h.1,
      ofElements_canonical rest h.2]

/-- The values of members are sorted like the documents that they are made of. -/
theorem ofMembers_canonical : ∀ ms : List (String × Json), Json.DistinctMembers ms →
    ofMembers (Json.canonicalMembers ms) = sortedEntries (ofMembers ms)
  | [], _ => rfl
  | (_, j) :: rest, h => by
    rw [Json.canonicalMembers, ofMembers, ofMembers, sortedEntries, ofJson_canonical j h.1,
      ofMembers_canonical rest h.2]

end

/-- A value without repeated names can be told from its typed form. -/
theorem toAttribute_inj {v v' : Value} (h : v.Distinct) (h' : v'.Distinct) :
    v.toAttribute = v'.toAttribute ↔ v = v' := by
  refine ⟨fun heq => ?_, congrArg toAttribute⟩
  rw [← plain_toAttribute v h, heq, plain_toAttribute v' h']

end Value

/-- Sorting entries gives other entries of the same names exactly if these are in order, and are the
entries. -/
theorem sortEntries_eq_iff {α : Type} {es ds : List (String × α)} (names : (es.map (·.1)).Nodup)
    (same : es.map (·.1) = ds.map (·.1)) :
    sortEntries es = ds ↔ (ds.map (·.1)).Pairwise (· < ·) ∧ es = ds := by
  constructor
  · rintro rfl
    have hsorted := sortEntries_inOrder names
    have horder := List.pairwise_map.2 hsorted
    refine ⟨horder, ?_⟩
    rw [← same] at horder
    exact eq_sortEntries (.refl es) (List.pairwise_map.1 horder)
  · rintro ⟨horder, rfl⟩
    exact (eq_sortEntries (.refl es) (List.pairwise_map.1 horder)).symm

namespace Json

/-! ## What stands in a text -/

namespace Numeral

/-- The literal as it stands in the text. -/
def text (n : Numeral) : String := String.ofList n.chars

/-- The text of the number that is read, if it is not out of range. -/
def reprinted (n : Numeral) : String := (n.literal.value?.map Number.text).getD ""

end Numeral

namespace Written

mutual

/-- What stands in the text: members in their order, and numbers with these literals. -/
def value (literal : Numeral → String) : Written → Value
  | .null => .null
  | .bool b => .bool b
  | .number n => .number (literal n)
  | .string ps => .string (content ps)
  | .array elements _ => .list (valueElements literal elements)
  | .object members _ => .map ⟨valueMembers literal members⟩

def valueElements (literal : Numeral → String) : List (Padded Written) → List Value
  | [] => []
  | ⟨_, w, _⟩ :: rest => w.value literal :: valueElements literal rest

def valueMembers (literal : Numeral → String) :
    List (Padded (List Piece) × Padded Written) → List (String × Value)
  | [] => []
  | (name, ⟨_, w, _⟩) :: rest => (content name.it, w.value literal) :: valueMembers literal rest

end

/-- The names of the members of an object, in their order. -/
def names (members : List (Padded (List Piece) × Padded Written)) : List String :=
  members.map fun m => content m.1.it

mutual

/-- In every object, at any depth, the names of the members are different. -/
def Distinct : Written → Prop
  | .array elements _ => DistinctElements elements
  | .object members _ => (names members).Nodup ∧ DistinctMembers members
  | _ => True

def DistinctElements : List (Padded Written) → Prop
  | [] => True
  | ⟨_, w, _⟩ :: rest => w.Distinct ∧ DistinctElements rest

def DistinctMembers : List (Padded (List Piece) × Padded Written) → Prop
  | [] => True
  | (_, ⟨_, w, _⟩) :: rest => w.Distinct ∧ DistinctMembers rest

end

mutual

/-- In every object, at any depth, the members stand in the order of their names. -/
def InOrder : Written → Prop
  | .array elements _ => InOrderElements elements
  | .object members _ => (names members).Pairwise (· < ·) ∧ InOrderMembers members
  | _ => True

def InOrderElements : List (Padded Written) → Prop
  | [] => True
  | ⟨_, w, _⟩ :: rest => w.InOrder ∧ InOrderElements rest

def InOrderMembers : List (Padded (List Piece) × Padded Written) → Prop
  | [] => True
  | (_, ⟨_, w, _⟩) :: rest => w.InOrder ∧ InOrderMembers rest

end

mutual

/-- The numbers, from left to right. -/
def numerals : Written → List Numeral
  | .number n => [n]
  | .array elements _ => numeralsElements elements
  | .object members _ => numeralsMembers members
  | _ => []

def numeralsElements : List (Padded Written) → List Numeral
  | [] => []
  | ⟨_, w, _⟩ :: rest => w.numerals ++ numeralsElements rest

def numeralsMembers : List (Padded (List Piece) × Padded Written) → List Numeral
  | [] => []
  | (_, ⟨_, w, _⟩) :: rest => w.numerals ++ numeralsMembers rest

end

/-- What stands in an object has its names in the order of the text. -/
theorem map_fst_valueMembers (literal : Numeral → String)
    (members : List (Padded (List Piece) × Padded Written)) :
    (valueMembers literal members).map (·.1) = names members := by
  induction members with
  | nil => rfl
  | cons m rest ih => exact congrArg (content m.1.it :: ·) ih

/-- The document that is made of an object has its names in the order of the text. -/
theorem map_fst_document {members : List (Padded (List Piece) × Padded Written)}
    {ms : List (String × Json)} (h : documentMembers? members = some ms) :
    ms.map (·.1) = names members := by
  induction members generalizing ms with
  | nil =>
    cases h
    rfl
  | cons m rest ih =>
    obtain ⟨j, -, h⟩ := Option.bind_eq_some_iff.1 h
    obtain ⟨more, hmore, h⟩ := Option.bind_eq_some_iff.1 h
    cases h
    exact congrArg (content m.1.it :: ·) (ih hmore)

mutual

/-- What stands in a text repeats names only where its objects do. -/
theorem distinct_value (literal : Numeral → String) : ∀ w : Written, w.Distinct →
    (w.value literal).Distinct
  | .null, _ => trivial
  | .bool _, _ => trivial
  | .number _, _ => trivial
  | .string _, _ => trivial
  | .array elements _, h => distinct_valueElements literal elements h
  | .object members _, h =>
    ⟨(map_fst_valueMembers literal members).symm ▸ h.1, distinct_valueMembers literal members h.2⟩

theorem distinct_valueElements (literal : Numeral → String) : ∀ elements : List (Padded Written),
    DistinctElements elements → Value.DistinctElements (valueElements literal elements)
  | [], _ => trivial
  | ⟨_, w, _⟩ :: rest, h => ⟨distinct_value literal w h.1, distinct_valueElements literal rest h.2⟩

theorem distinct_valueMembers (literal : Numeral → String) :
    ∀ members : List (Padded (List Piece) × Padded Written), DistinctMembers members →
      Value.DistinctEntries (valueMembers literal members)
  | [], _ => trivial
  | (_, ⟨_, w, _⟩) :: rest, h =>
    ⟨distinct_value literal w h.1, distinct_valueMembers literal rest h.2⟩

end

mutual

/-- The document of a text repeats names only where its objects do. -/
theorem distinct_document {j : Json} : ∀ w : Written, w.Distinct → w.document? = some j →
    j.Distinct
  | .null, _, h => by cases h; trivial
  | .bool _, _, h => by cases h; trivial
  | .number n, _, h => by
    -- a number in range is a number, whatever its literal was
    obtain ⟨_, -, rfl⟩ := Option.map_eq_some_iff.1 h
    trivial
  | .string _, _, h => by cases h; trivial
  | .array elements _, distinct, h => by
    obtain ⟨js, hjs, rfl⟩ := Option.map_eq_some_iff.1 h
    exact distinct_documentElements elements distinct hjs
  | .object members _, distinct, h => by
    obtain ⟨ms, hms, rfl⟩ := Option.map_eq_some_iff.1 h
    exact ⟨(map_fst_document hms).symm ▸ distinct.1,
      distinct_documentMembers members distinct.2 hms⟩

/-- The documents of elements repeat names only where the elements do. -/
theorem distinct_documentElements {js : List Json} : ∀ elements : List (Padded Written),
    DistinctElements elements → documentElements? elements = some js → Json.DistinctElements js
  | [], _, h => by cases h; trivial
  | ⟨_, w, _⟩ :: rest, distinct, h => by
    obtain ⟨j, hj, h⟩ := Option.bind_eq_some_iff.1 h
    obtain ⟨more, hmore, h⟩ := Option.bind_eq_some_iff.1 h
    cases h
    exact ⟨distinct_document w distinct.1 hj, distinct_documentElements rest distinct.2 hmore⟩

/-- The documents of members repeat names, further down, only where the members do. -/
theorem distinct_documentMembers {ms : List (String × Json)} :
    ∀ members : List (Padded (List Piece) × Padded Written), DistinctMembers members →
      documentMembers? members = some ms → Json.DistinctMembers ms
  | [], _, h => by cases h; trivial
  | (_, ⟨_, w, _⟩) :: rest, distinct, h => by
    obtain ⟨j, hj, h⟩ := Option.bind_eq_some_iff.1 h
    obtain ⟨more, hmore, h⟩ := Option.bind_eq_some_iff.1 h
    cases h
    exact ⟨distinct_document w distinct.1 hj, distinct_documentMembers rest distinct.2 hmore⟩

end

mutual

/-- **The value of a document** is what stands in the text, with its literals reprinted. -/
theorem ofJson_document {j : Json} : ∀ w : Written, w.Distinct → w.document? = some j →
    Value.ofJson j = w.value Numeral.reprinted
  | .null, _, h => by cases h; rfl
  | .bool _, _, h => by cases h; rfl
  | .number n, _, h => by
    obtain ⟨number, hnumber, rfl⟩ := Option.map_eq_some_iff.1 h
    rw [Value.ofJson, value, Numeral.reprinted, hnumber]
    rfl
  | .string _, _, h => by cases h; rfl
  | .array elements _, distinct, h => by
    obtain ⟨js, hjs, rfl⟩ := Option.map_eq_some_iff.1 h
    rw [Value.ofJson, value, ofElements_document elements distinct hjs]
  | .object members _, distinct, h => by
    obtain ⟨ms, hms, rfl⟩ := Option.map_eq_some_iff.1 h
    have hnodup : ((valueMembers Numeral.reprinted members).map (·.1)).Nodup := by
      rw [map_fst_valueMembers]
      exact distinct.1
    rw [Value.ofJson, value, ofMembers_document members distinct.2 hms,
      OrderedMap.ofList_of_nodup hnodup]

/-- The values of elements are what stands in the text, but for their literals. -/
theorem ofElements_document {js : List Json} : ∀ elements : List (Padded Written),
    DistinctElements elements → documentElements? elements = some js →
    Value.ofElements js = valueElements Numeral.reprinted elements
  | [], _, h => by cases h; rfl
  | ⟨_, w, _⟩ :: rest, distinct, h => by
    obtain ⟨j, hj, h⟩ := Option.bind_eq_some_iff.1 h
    obtain ⟨more, hmore, h⟩ := Option.bind_eq_some_iff.1 h
    cases h
    rw [Value.ofElements, valueElements, ofJson_document w distinct.1 hj,
      ofElements_document rest distinct.2 hmore]

/-- The values of members are what stands in the text, but for their literals. -/
theorem ofMembers_document {ms : List (String × Json)} :
    ∀ members : List (Padded (List Piece) × Padded Written), DistinctMembers members →
      documentMembers? members = some ms →
      Value.ofMembers ms = valueMembers Numeral.reprinted members
  | [], _, h => by cases h; rfl
  | (_, ⟨_, w, _⟩) :: rest, distinct, h => by
    obtain ⟨j, hj, h⟩ := Option.bind_eq_some_iff.1 h
    obtain ⟨more, hmore, h⟩ := Option.bind_eq_some_iff.1 h
    cases h
    rw [Value.ofMembers, valueMembers, ofJson_document w distinct.1 hj,
      ofMembers_document rest distinct.2 hmore]

end

section

variable {f g : Numeral → String}

mutual

/-- **Sorting and reprinting change nothing** exactly if the members are in order and the literals
are reprinted as they were. -/
theorem sorted_value_iff : ∀ w : Written, w.Distinct →
    ((w.value f).sorted = w.value g ↔ w.InOrder ∧ ∀ n ∈ w.numerals, f n = g n)
  | .null, _ => by simp [value, Value.sorted, InOrder, numerals]
  | .bool _, _ => by simp [value, Value.sorted, InOrder, numerals]
  | .number n, _ => by simp [value, Value.sorted, InOrder, numerals]
  | .string _, _ => by simp [value, Value.sorted, InOrder, numerals]
  | .array elements _, h => by
    rw [value, value, Value.sorted, Value.list.injEq, sorted_valueElements_iff elements h, InOrder,
      numerals]
  | .object members _, h => by
    have hfst : (Value.sortedEntries (valueMembers f members)).map (·.1) = names members := by
      rw [Value.map_fst_sortedEntries, map_fst_valueMembers]
    have hsame : (Value.sortedEntries (valueMembers f members)).map (·.1)
        = (valueMembers g members).map (·.1) := by
      rw [hfst, map_fst_valueMembers]
    rw [value, value, Value.sorted, Value.map.injEq, OrderedMap.mk.injEq,
      sortEntries_eq_iff (hfst ▸ h.1) hsame, map_fst_valueMembers,
      sorted_valueMembers_iff members h.2, InOrder, numerals, and_assoc]

/-- Elements stay as they are if each of them does. -/
theorem sorted_valueElements_iff : ∀ elements : List (Padded Written), DistinctElements elements →
    (Value.sortedElements (valueElements f elements) = valueElements g elements
      ↔ InOrderElements elements ∧ ∀ n ∈ numeralsElements elements, f n = g n)
  | [], _ => by
    simp [valueElements, Value.sortedElements, InOrderElements, numeralsElements]
  | ⟨_, w, _⟩ :: rest, h => by
    rw [valueElements, valueElements, Value.sortedElements, List.cons.injEq,
      sorted_value_iff w h.1, sorted_valueElements_iff rest h.2, InOrderElements, numeralsElements,
      List.forall_mem_append]
    -- the order and the literals of the first element, then those of the rest
    exact and_and_and_comm

/-- The values of members stay as they are if each of them does; the order of the members themselves
is not looked at here. -/
theorem sorted_valueMembers_iff : ∀ members : List (Padded (List Piece) × Padded Written),
    DistinctMembers members →
    (Value.sortedEntries (valueMembers f members) = valueMembers g members
      ↔ InOrderMembers members ∧ ∀ n ∈ numeralsMembers members, f n = g n)
  | [], _ => by
    simp [valueMembers, Value.sortedEntries, InOrderMembers, numeralsMembers]
  | (_, ⟨_, w, _⟩) :: rest, h => by
    rw [valueMembers, valueMembers, Value.sortedEntries, List.cons.injEq, Prod.mk.injEq,
      sorted_value_iff w h.1, sorted_valueMembers_iff rest h.2, InOrderMembers, numeralsMembers,
      List.forall_mem_append, eq_self_iff_true, true_and]
    exact and_and_and_comm

end

end

end Written

/-! ## Literals that are reprinted -/

/-- A number in positions is printed with a point, also where it is whole. -/
theorem mark_mem_positionally (digits : List Char) (point : Int) :
    '.' ∈ (Decimal.document.positionally digits point).toList := by
  rw [Decimal.Layout.positionally]
  split
  · simp
  · split <;> simp [Decimal.document]

/-- A number with an exponent is printed with its mark. -/
theorem mark_mem_scientifically (digits : List Char) (exponent : Int) :
    'e' ∈ (Decimal.scientifically digits exponent).toList := by
  simp [Decimal.scientifically]

/-- A character that no integer has. -/
def IsMark (c : Char) : Prop := c ∈ ['.', 'e', 'n']

/-- A floating-point number that is finite is printed with a point or with an exponent. -/
theorem exists_mark_magnitude (f : Decimal.BinaryFormat) (m : Nat) (q : Int) :
    ∃ c, IsMark c ∧ c ∈ (Decimal.document.magnitude f m q).toList := by
  rw [Decimal.Layout.magnitude]
  split
  · -- zero is printed as `0.0`
    exact ⟨'.', by simp [IsMark], by decide⟩
  · dsimp only
    split
    · exact ⟨'.', by simp [IsMark], mark_mem_positionally _ _⟩
    · exact ⟨'e', by simp [IsMark], mark_mem_scientifically _ _⟩

/-- The text of a floating point number has a point or an exponent, or is no number. -/
theorem exists_mark (x : Float) : ∃ c, IsMark c ∧ c ∈ (Number.float x).text.toList := by
  have signed (negative : Bool) {s : String} (h : ∃ c, IsMark c ∧ c ∈ s.toList) :
      ∃ c, IsMark c ∧ c ∈ (if negative then "-" ++ s else s).toList := by
    obtain ⟨c, hc, hmem⟩ := h
    refine ⟨c, hc, ?_⟩
    split
    · rw [String.toList_append]
      exact List.mem_append_right _ hmem
    · exact hmem
  rw [Number.text, Decimal.Layout.render]
  split
  · exact ⟨'n', by simp [IsMark], by decide⟩
  · exact signed _ ⟨'n', by simp [IsMark], by decide⟩
  · exact signed _ (exists_mark_magnitude _ _ _)

/-- An integer of 64 bits that is not minus zero. -/
def Literal.IsInteger (l : Literal) : Prop :=
  if l.negative then 0 < Decimal.natOfDigits l.whole ∧ Decimal.natOfDigits l.whole ≤ 2 ^ 63
  else Decimal.natOfDigits l.whole < 2 ^ 64

namespace Numeral

/-- A literal without fraction and exponent is its sign and its digits. -/
theorem text_integer {n : Numeral} (fraction : n.literal.fraction = none)
    (exponent : n.literal.exponent = none) :
    n.text = String.ofList ((if n.literal.negative then ['-'] else []) ++ n.literal.whole) := by
  rw [text, chars, fraction, exponent]
  simp [fractionChars, exponentChars]

/-- Neither a sign nor a digit is a mark. -/
theorem not_isMark_text {n : Numeral} (fraction : n.literal.fraction = none)
    (exponent : n.literal.exponent = none) : ∀ c ∈ n.text.toList, ¬IsMark c := by
  intro c hc hmark
  rw [text_integer fraction exponent, String.toList_ofList, List.mem_append] at hc
  rcases hc with hsign | hdigit
  · split at hsign
    · cases List.mem_singleton.1 hsign
      revert hmark
      simp [IsMark]
    · cases hsign
  · have hd := n.whole.digit c hdigit
    simp only [IsMark, List.mem_cons, List.not_mem_nil, or_false] at hmark
    rcases hmark with rfl | rfl | rfl <;> cases hd

/-- A literal is never empty, so a number out of range is never reprinted as itself. -/
theorem text_ne_empty (n : Numeral) : n.text ≠ "" := by
  obtain ⟨c, cs, hcs, -⟩ := n.exists_first
  rw [text, hcs]
  exact fun h => by simpa using congrArg String.toList h

/-- What is read as a floating point number is reprinted with a mark. -/
theorem reprinted_ne_of_float {n : Numeral} (fraction : n.literal.fraction = none)
    (exponent : n.literal.exponent = none) (h : n.literal.value? = n.literal.float?.map .float) :
    n.reprinted ≠ n.text := by
  rw [reprinted, h]
  cases n.literal.float? with
  | none => exact n.text_ne_empty.symm
  | some x =>
    obtain ⟨c, hc, hmem⟩ := exists_mark x
    intro heq
    exact not_isMark_text fraction exponent c (heq ▸ hmem) hc

/-- An integer that is read with the sign and the digits of its literal is reprinted as this
literal. -/
theorem reprinted_of_integer {n : Numeral} (fraction : n.literal.fraction = none)
    (exponent : n.literal.exponent = none) {i : Int} (h : n.literal.value? = some (.integer i))
    (sign : n.literal.negative = decide (i < 0))
    (digits : i.natAbs = Decimal.natOfDigits n.literal.whole) : n.reprinted = n.text := by
  rw [reprinted, h, text_integer fraction exponent, ← String.toList_inj, String.toList_ofList]
  show (Decimal.intText i).toList = _
  -- the digits of a whole part have no leading zero, so they are those of its value
  rw [toList_intText, digits, Decimal.toDigits_natOfDigits n.whole, sign]
  simp

/-- **An integer is reprinted as it is written** if it has 64 bits and is not minus zero. -/
theorem reprinted_iff {n : Numeral} (fraction : n.literal.fraction = none)
    (exponent : n.literal.exponent = none) : n.reprinted = n.text ↔ n.literal.IsInteger := by
  have hmin : Int64.minValue.toInt = -2 ^ 63 := rfl
  have hsize : UInt64.size = 2 ^ 64 := rfl
  -- without a fraction and an exponent the reader tries an unsigned and then a signed integer
  have hvalue : n.literal.value?
      = if !n.literal.negative && Decimal.natOfDigits n.literal.whole < UInt64.size then
          some (.integer (Decimal.natOfDigits n.literal.whole))
        else if n.literal.negative && 0 < Decimal.natOfDigits n.literal.whole
            && Int64.minValue.toInt ≤ -Decimal.natOfDigits n.literal.whole then
          some (.integer (-Decimal.natOfDigits n.literal.whole))
        else n.literal.float?.map .float := by
    rw [Literal.value?, fraction, exponent]
  have hinteger := fun i => reprinted_of_integer fraction exponent (i := i)
  have hfloat := reprinted_ne_of_float fraction exponent
  rw [Literal.IsInteger]
  -- nothing but the size of the digits matters from here on
  generalize Decimal.natOfDigits n.literal.whole = w at hvalue hinteger ⊢
  cases hsign : n.literal.negative with
  | false =>
    rw [hsign] at hvalue hinteger
    rw [if_neg Bool.false_ne_true]
    by_cases hw : w < 2 ^ 64
    · refine iff_of_true (hinteger w (hvalue.trans (if_pos ?_)) ?_ ?_) hw
      · simp [hsize]
        omega
      · simp
      · simp
    · refine iff_of_false (hfloat (hvalue.trans ?_)) hw
      rw [if_neg (by simp [hsize]; omega), if_neg (by simp)]
  | true =>
    rw [hsign] at hvalue hinteger
    rw [if_pos rfl]
    -- a zero with a sign is no integer to the reader, and is reprinted as a float
    by_cases hw : 0 < w ∧ w ≤ 2 ^ 63
    · refine iff_of_true (hinteger (-w) (hvalue.trans ?_) ?_ ?_) hw
      · rw [if_neg (by simp), if_pos (by simp [hmin]; omega)]
      · simp; omega
      · simp
    · refine iff_of_false (hfloat (hvalue.trans ?_)) hw
      rw [if_neg (by simp), if_neg (by simp [hmin]; omega)]

end Numeral

/-! ## What is made of a text -/

/-- **What is made of a text.** Every text that is read has been written in some way. However it has
been written, if no object repeats a name, its value is what stands there, with the members of every
object, at any depth, in the order of their names, and with each literal replaced by the text of its
number; and its typed form is the typed form of that. So it is what stands there exactly if the
members are in this order already, and each literal is the text of its number; an integer is if it
has 64 bits and is not minus zero. -/
theorem conversion_exact {text : String} {j : Json} (h : Json.read text = .ok j) :
    (∃ w : Padded Written, w.text = text)
      ∧ ∀ w : Padded Written, w.text = text → w.it.Distinct →
        Value.ofJson j.canonical = (w.it.value Numeral.reprinted).sorted
          ∧ (Value.ofJson j.canonical).toAttribute
            = (w.it.value Numeral.reprinted).toAttribute.sorted
          ∧ (Value.ofJson j.canonical = w.it.value Numeral.text
            ↔ w.it.InOrder ∧ ∀ n ∈ w.it.numerals, n.reprinted = n.text)
          ∧ ((Value.ofJson j.canonical).toAttribute = (w.it.value Numeral.text).toAttribute
            ↔ w.it.InOrder ∧ ∀ n ∈ w.it.numerals, n.reprinted = n.text)
          ∧ ∀ n ∈ w.it.numerals, n.literal.fraction = none → n.literal.exponent = none →
            (n.reprinted = n.text ↔ n.literal.IsInteger) := by
  refine ⟨(read_eq_ok.1 h).imp fun w hw => hw.1, ?_⟩
  rintro w rfl distinct
  have hdocument : w.it.document? = some j := (read_text.1 h).2
  -- sorting the document sorts its value, in which the numbers are reprinted
  have hvalue : Value.ofJson j.canonical = (w.it.value Numeral.reprinted).sorted := by
    rw [Value.ofJson_canonical j (Written.distinct_document w.it distinct hdocument),
      Written.ofJson_document w.it distinct hdocument]
  have hreprinted := Written.distinct_value Numeral.reprinted w.it distinct
  have hiff := Written.sorted_value_iff (f := Numeral.reprinted) (g := Numeral.text) w.it distinct
  refine ⟨hvalue, ?_, ?_, ?_, fun n _ => Numeral.reprinted_iff⟩
  · rw [hvalue, Value.toAttribute_sorted _ hreprinted]
  · rw [hvalue, hiff]
  · rw [hvalue, Value.toAttribute_inj (Value.distinct_sorted _ hreprinted)
      (Written.distinct_value _ w.it distinct), hiff]

/-- The text `{"b" : 1, "a":[18446744073709551615,-5]}`. -/
def unsorted : Padded Written :=
  let space : Blanks := ⟨[' '], List.forall_mem_singleton.2 rfl⟩
  .bare (.object [
    (⟨.none, [.plain 'b' (by decide) (by decide) (by decide)], space⟩,
      ⟨space, .number (.ofInt 1), .none⟩),
    (⟨space, [.plain 'a' (by decide) (by decide) (by decide)], .none⟩,
      .bare (.array [.bare (.number (.ofInt 18446744073709551615)),
        .bare (.number (.ofInt (-5)))] .none))] .none)

/-- The text is read, with its members in the order in which they stand. -/
theorem read_unsorted : Json.read unsorted.text = .ok (.object [("b", .ofInt 1),
    ("a", .array [.ofInt 18446744073709551615, .ofInt (-5)])]) :=
  read_text.2 ⟨by decide, rfl⟩

theorem distinct_unsorted : unsorted.it.Distinct := by
  refine ⟨?_, trivial, ⟨trivial, trivial, trivial⟩, trivial⟩
  decide

/-- What is made of this text has its members in another order, and the largest integer that is kept
as one; it is not what stands in the text. -/
theorem conversion_exact_unsorted :
    unsorted.text = "\x7b\"b\" : 1, \"a\":[18446744073709551615,-5]\x7d"
      ∧ ∃ j, Json.read unsorted.text = .ok j
        ∧ Value.ofJson j.canonical = .map ⟨[
            ("a", .list [.number "18446744073709551615", .number "-5"]), ("b", .number "1")]⟩
        ∧ Value.ofJson j.canonical ≠ unsorted.it.value Numeral.text := by
  obtain ⟨-, written⟩ := conversion_exact read_unsorted
  obtain ⟨hvalue, -, hiff, -⟩ := written unsorted rfl distinct_unsorted
  refine ⟨rfl, _, read_unsorted, hvalue.trans ?_, fun heq => ?_⟩
  · decide
  · -- `b` stands before `a` in the text
    have horder := (hiff.1 heq).1.1
    revert horder
    decide

/-- The text `{"b":1,"a":2}`. -/
def swapped : Padded Written :=
  .bare (.object [
    (.bare [.plain 'b' (by decide) (by decide) (by decide)], .bare (.number (.ofInt 1))),
    (.bare [.plain 'a' (by decide) (by decide) (by decide)], .bare (.number (.ofInt 2)))] .none)

/-- **The order of the members is not always kept.** -/
theorem document_order_lost : ¬∀ (w : Padded Written) (j : Json), w.it.Distinct →
    Json.read w.text = .ok j → Value.ofJson j.canonical = w.it.value Numeral.text := by
  intro h
  have distinct : swapped.it.Distinct := ⟨by decide, trivial, trivial, trivial⟩
  have hread : Json.read swapped.text = .ok (.object [("b", .ofInt 1), ("a", .ofInt 2)]) :=
    read_text.2 ⟨by decide, rfl⟩
  have hvalue := h swapped _ distinct hread
  revert hvalue
  decide

end Json

end TableQuery
