import Mathlib.Data.List.Basic
import TableQuery.Json.Printer
import TableQuery.Json.Reader
import TableQuery.Proofs.JsonText.Written

/-!
# Printed documents

A document is printed as a text that is something written, so it is read back as it was, unless it
lies too deep. This is shown for documents whose numbers are integers of 64 bits (`Whole`).

* **`exists_prints`** — the text of a document, as it is written.
* **`ofText_print`** — what is made of it.
* **`read_print`** — it is read if and only if it lies within the nesting limit.
* **`readText_print`**, **`readGeneric_print`** — a typed reader reads it as it reads the document.
-/

namespace TableQuery.Json

/-! ## Documents without fractions -/

/-- An integer of 64 bits, with or without a sign. -/
def Number.IsWhole : Number → Prop
  | .integer n => Int64.minValue.toInt ≤ n ∧ n < UInt64.size
  | .float _ => False

mutual

/-- The numbers of the document are integers of 64 bits. -/
def Whole : Json → Prop
  | .number n => n.IsWhole
  | .array elements => WholeElements elements
  | .object members => WholeMembers members
  | _ => True

def WholeElements : List Json → Prop
  | [] => True
  | j :: rest => j.Whole ∧ WholeElements rest

def WholeMembers : List (String × Json) → Prop
  | [] => True
  | (_, j) :: rest => j.Whole ∧ WholeMembers rest

end

mutual

/-- The number of containers that the innermost value lies in. -/
def depth : Json → Nat
  | .array elements => depthElements elements + 1
  | .object members => depthMembers members + 1
  | _ => 0

def depthElements : List Json → Nat
  | [] => 0
  | j :: rest => max j.depth (depthElements rest)

def depthMembers : List (String × Json) → Nat
  | [] => 0
  | (_, j) :: rest => max j.depth (depthMembers rest)

end

mutual

/-- A document as a draft, where `room` containers may be entered. -/
def draftWithin (room : Nat) : Json → Draft
  | .null => .null
  | .bool b => .bool b
  | .number n => .number (some n)
  | .string s => .string s
  | .array elements => .array (room == 0) (draftElementsWithin (room - 1) elements) none
  | .object members => .object (room == 0) (draftMembersWithin (room - 1) members) none

def draftElementsWithin (room : Nat) : List Json → List Draft
  | [] => []
  | j :: rest => j.draftWithin room :: draftElementsWithin room rest

def draftMembersWithin (room : Nat) : List (String × Json) → List (Name × Draft)
  | [] => []
  | (name, j) :: rest => (.text name, j.draftWithin room) :: draftMembersWithin room rest

end

mutual

/-- A document that does not lie too deep is a draft without breaks. -/
theorem draftWithin_eq {room : Nat} : ∀ j : Json, j.depth ≤ room → j.draftWithin room = j.toDraft
  | .null, _ => rfl
  | .bool _, _ => rfl
  | .number _, _ => rfl
  | .string _, _ => rfl
  | .array elements, h => by
    rw [depth] at h
    have hroom : (room == 0) = false := beq_eq_false_iff_ne.2 (by omega)
    rw [draftWithin, toDraft, hroom, draftElementsWithin_eq elements (by omega)]
  | .object members, h => by
    rw [depth] at h
    have hroom : (room == 0) = false := beq_eq_false_iff_ne.2 (by omega)
    rw [draftWithin, toDraft, hroom, draftMembersWithin_eq members (by omega)]

/-- Elements that do not lie too deep are drafts with nothing cut off. -/
theorem draftElementsWithin_eq {room : Nat} : ∀ js : List Json, depthElements js ≤ room →
    draftElementsWithin room js = draftElements js
  | [], _ => rfl
  | j :: rest, h => by
    rw [depthElements, Nat.max_le] at h
    rw [draftElementsWithin, draftElements, draftWithin_eq j h.1, draftElementsWithin_eq rest h.2]

/-- Members that do not lie too deep are drafts with nothing cut off. -/
theorem draftMembersWithin_eq {room : Nat} : ∀ ms : List (String × Json), depthMembers ms ≤ room →
    draftMembersWithin room ms = draftMembers ms
  | [], _ => rfl
  | (_, j) :: rest, h => by
    rw [depthMembers, Nat.max_le] at h
    rw [draftMembersWithin, draftMembers, draftWithin_eq j h.1, draftMembersWithin_eq rest h.2]

end

/-! ## Numbers and strings -/

/-- An integer is written as its sign, if it has one, and the digits of its absolute value. -/
theorem toList_intText (n : Int) :
    (Decimal.intText n).toList = (if n < 0 then ['-'] else []) ++ Nat.toDigits 10 n.natAbs := by
  cases n with
  | ofNat n =>
    have hsign : ¬Int.ofNat n < 0 := by simp
    rw [Decimal.intText, String.toList_ofList, if_neg hsign]
    rfl
  | negSucc n =>
    rw [Decimal.intText, String.toList_ofList, if_pos (Int.negSucc_lt_zero n)]
    rfl

/-- The numeral of an integer. -/
def Numeral.ofInt (n : Int) : Numeral where
  literal := ⟨decide (n < 0), Nat.toDigits 10 n.natAbs, none, none⟩
  mark := 'e'
  plus := false
  whole := Decimal.isWhole_toDigits _
  fraction := nofun
  exponent := nofun
  isMark := .inl rfl

/-- The numeral of an integer is what is written of it. -/
theorem Numeral.chars_ofInt (n : Int) : (Numeral.ofInt n).chars = (Decimal.intText n).toList := by
  rw [toList_intText]
  simp [Numeral.chars, Numeral.ofInt, fractionChars, exponentChars]

/-- The numeral of an integer of 64 bits has that integer as its value, and no floating-point
number. -/
theorem Numeral.value?_ofInt {n : Int} (h : (Number.integer n).IsWhole) :
    (Numeral.ofInt n).literal.value? = some (.integer n) := by
  obtain ⟨hmin, hmax⟩ := h
  simp only [ofInt, Literal.value?, Decimal.natOfDigits_toDigits]
  -- a negative number is read from its absolute value, within the bound for signed integers
  by_cases hn : n < 0
  · have habs : -(n.natAbs : Int) = n := by omega
    have hpos : 0 < n.natAbs := by omega
    have hrange : Int64.minValue.toInt ≤ -(n.natAbs : Int) := by omega
    rw [if_neg (by simp [hn]), if_pos (by simpa [hn, hpos] using hrange), habs]
  · have habs : (n.natAbs : Int) = n := by omega
    have hlt : n.natAbs < UInt64.size := by omega
    rw [if_pos (by simpa [hn] using hlt), habs]

/-- A control character is escaped by two zeros and the two digits of its code. -/
theorem hexCode?_control : ∀ code < 0x20,
    hexCode? '0' '0' (Nat.digitChar (code / 16)) (Nat.digitChar (code % 16)) = some code := by
  decide

/-- No control character is half of a pair. -/
theorem not_surrogate_control : ∀ code < 0x20,
    isLowSurrogate code = false ∧ isHighSurrogate code = false := by
  decide

/-- A character is printed as one piece. -/
theorem exists_piece (c : Char) : ∃ p : Piece, p.chars = escapeChar c ∧ p.char = c := by
  rw [escapeChar.eq_def]
  split
  case h_8 quote backslash _ _ _ _ _ =>
    split
    · next control =>
      obtain ⟨low, high⟩ := not_surrogate_control _ control
      exact ⟨.unit ⟨'0', '0', _, _, c.toNat, hexCode?_control _ control⟩ low high, rfl,
        Char.ofNat_toNat c⟩
    · next control => exact ⟨.plain c quote backslash control, rfl, rfl⟩
  all_goals exact ⟨.escape _ _ rfl, rfl, rfl⟩

/-- A string is printed in pieces that stand for its characters. -/
theorem exists_pieces (s : String) :
    ∃ ps : List Piece, '"' :: quoteChars ps = stringChars s ∧ content ps = s := by
  -- each character has a piece of its own
  have hpieces (cs : List Char) : ∃ ps : List Piece,
      ps.flatMap Piece.chars = cs.flatMap escapeChar ∧ ps.map Piece.char = cs := by
    induction cs with
    | nil => exact ⟨[], rfl, rfl⟩
    | cons c cs ih =>
      obtain ⟨p, hchars, hchar⟩ := exists_piece c
      obtain ⟨ps, hps, hcs⟩ := ih
      exact ⟨p :: ps, by simp [hchars, hps], by simp [hchar, hcs]⟩
  obtain ⟨ps, hps, hs⟩ := hpieces s.toList
  exact ⟨ps, by rw [quoteChars, hps, stringChars], by rw [content, hs, String.ofList_toList]⟩

/-! ## Documents -/

/-- Elements are printed with a comma before each of them but the first. -/
theorem elementChars_eq (js : List Json) :
    elementChars js = (js.flatMap fun j => ',' :: j.chars).tail := by
  have hcons (rest : List Json) (j : Json) :
      elementChars (j :: rest) = j.chars ++ rest.flatMap fun j => ',' :: j.chars := by
    induction rest generalizing j with
    | nil => rw [elementChars, List.flatMap_nil, List.append_nil]
    | cons next rest ih =>
      rw [elementChars, ih, List.flatMap_cons]
      · rfl
      · exact nofun
  cases js with
  | nil => rfl
  | cons j rest => rw [hcons, List.flatMap_cons]; rfl

/-- The members of an object, each behind a comma, without the first comma. -/
theorem memberChars_eq (ms : List (String × Json)) :
    memberChars ms
      = (ms.flatMap fun m => ',' :: (stringChars m.1 ++ ':' :: m.2.chars)).tail := by
  have hcons (rest : List (String × Json)) (m : String × Json) :
      memberChars (m :: rest) = stringChars m.1 ++ ':' :: (m.2.chars
        ++ rest.flatMap fun m => ',' :: (stringChars m.1 ++ ':' :: m.2.chars)) := by
    induction rest generalizing m with
    | nil => rw [memberChars, List.flatMap_nil, List.append_nil]
    | cons next rest ih =>
      rw [memberChars, ih, List.flatMap_cons]
      · simp
      · exact nofun
  cases ms with
  | nil => rfl
  | cons m rest => rw [hcons, List.flatMap_cons]; simp

/-- The text of a document, as it is written. -/
structure Prints (w : Written) (j : Json) : Prop where
  chars : w.chars = j.chars
  document : w.document? = some j
  depth : w.depth = j.depth
  draft : ∀ room, w.draft room = j.draftWithin room

structure PrintsElements (ws : List (Padded Written)) (js : List Json) : Prop where
  chars : Written.elementChars ws = js.flatMap fun j => ',' :: j.chars
  document : Written.documentElements? ws = some js
  depth : Written.depthElements ws = depthElements js
  draft : ∀ room, Written.draftElements room ws = draftElementsWithin room js

structure PrintsMembers (ws : List (Padded (List Piece) × Padded Written))
    (ms : List (String × Json)) : Prop where
  chars : Written.memberChars ws = ms.flatMap fun m => ',' :: (stringChars m.1 ++ ':' :: m.2.chars)
  document : Written.documentMembers? ws = some ms
  depth : Written.depthMembers ws = depthMembers ms
  draft : ∀ room, Written.draftMembers room ws = draftMembersWithin room ms

/-- Nothing is printed between the tokens. -/
def Padded.bare {α : Type} (a : α) : Padded α := ⟨.none, a, .none⟩

mutual

/-- **The text of a document** is something written. -/
theorem exists_prints : ∀ j : Json, j.Whole → ∃ w, Prints w j
  | .null, _ => ⟨.null, rfl, rfl, rfl, fun _ => rfl⟩
  | .bool true, _ => ⟨.bool true, rfl, rfl, rfl, fun _ => rfl⟩
  | .bool false, _ => ⟨.bool false, rfl, rfl, rfl, fun _ => rfl⟩
  | .number (.integer n), h => by
    have hvalue := Numeral.value?_ofInt h
    refine ⟨.number (.ofInt n), ?_, ?_, rfl, fun room => ?_⟩
    · rw [Written.chars, Numeral.chars_ofInt, chars, Number.text]
    · rw [Written.document?, hvalue]
      rfl
    · rw [Written.draft, hvalue, draftWithin]
  | .string s, _ => by
    obtain ⟨ps, hchars, hs⟩ := exists_pieces s
    refine ⟨.string ps, ?_, ?_, rfl, fun room => ?_⟩
    · rw [Written.chars, hchars, chars]
    · rw [Written.document?, hs]
    · rw [Written.draft, hs, draftWithin]
  | .array elements, h => by
    obtain ⟨ws, hws⟩ := exists_printsElements elements h
    refine ⟨.array ws .none, ?_, ?_, ?_, fun room => ?_⟩
    · rw [Written.chars, hws.chars, chars, elementChars_eq]
      rfl
    · rw [Written.document?, hws.document]
      rfl
    · rw [Written.depth, hws.depth, depth]
    · rw [Written.draft, hws.draft, draftWithin]
  | .object members, h => by
    obtain ⟨ws, hws⟩ := exists_printsMembers members h
    refine ⟨.object ws .none, ?_, ?_, ?_, fun room => ?_⟩
    · rw [Written.chars, hws.chars, chars, memberChars_eq]
      rfl
    · rw [Written.document?, hws.document]
      rfl
    · rw [Written.depth, hws.depth, depth]
    · rw [Written.draft, hws.draft, draftWithin]

/-- The elements of an array are printed as something written, without blanks between them. -/
theorem exists_printsElements : ∀ js : List Json, WholeElements js → ∃ ws, PrintsElements ws js
  | [], _ => ⟨[], rfl, rfl, rfl, fun _ => rfl⟩
  | j :: rest, h => by
    obtain ⟨w, hw⟩ := exists_prints j h.1
    obtain ⟨ws, hws⟩ := exists_printsElements rest h.2
    refine ⟨.bare w :: ws, ?_, ?_, ?_, fun room => ?_⟩
    · have hcons : Written.elementChars (.bare w :: ws)
          = ',' :: (w.chars ++ Written.elementChars ws) := rfl
      rw [hcons, hw.chars, hws.chars]
      rfl
    · simp [Padded.bare, Written.documentElements?, hw.document, hws.document]
    · rw [Padded.bare, Written.depthElements, hw.depth, hws.depth, depthElements]
    · rw [Padded.bare, Written.draftElements, hw.draft, hws.draft, draftElementsWithin]

/-- The members of an object are printed as something written, without blanks between them. -/
theorem exists_printsMembers : ∀ ms : List (String × Json), WholeMembers ms →
    ∃ ws, PrintsMembers ws ms
  | [], _ => ⟨[], rfl, rfl, rfl, fun _ => rfl⟩
  | (name, j) :: rest, h => by
    obtain ⟨ps, hchars, hs⟩ := exists_pieces name
    obtain ⟨w, hw⟩ := exists_prints j h.1
    obtain ⟨ws, hws⟩ := exists_printsMembers rest h.2
    refine ⟨(.bare ps, .bare w) :: ws, ?_, ?_, ?_, fun room => ?_⟩
    · have hcons : Written.memberChars ((.bare ps, .bare w) :: ws)
          = ',' :: (('"' :: quoteChars ps) ++ ':' :: (w.chars ++ Written.memberChars ws)) := rfl
      rw [hcons, hchars, hw.chars, hws.chars, List.flatMap_cons]
      simp
    · simp [Padded.bare, Written.documentMembers?, hw.document, hws.document, hs]
    · rw [Padded.bare, Padded.bare, Written.depthMembers, hw.depth, hws.depth, depthMembers]
    · rw [Padded.bare, Padded.bare, Written.draftMembers, hw.draft, hws.draft,
        draftMembersWithin, hs]

end

/-- A document is printed without blanks around it. -/
theorem text_bare {w : Written} {j : Json} (h : Prints w j) : (Padded.bare w).text = j.print := by
  rw [print, ← h.chars]
  simp [Padded.text, Padded.bare]

/-- **What is made of a printed document.** -/
theorem ofText_print {j : Json} (h : j.Whole) (limit : Nat) :
    Draft.ofText limit j.print = ⟨j.draftWithin limit, false⟩ := by
  obtain ⟨w, hw⟩ := exists_prints j h
  rw [← text_bare hw, ofText_text, ← hw.draft limit]
  rfl

/-- **A printed document is read** if and only if it does not lie too deep. -/
theorem read_print {i j : Json} (h : j.Whole) :
    Json.read j.print = .ok i ↔ j.depth ≤ nestingLimit ∧ j = i := by
  obtain ⟨w, hw⟩ := exists_prints j h
  rw [← text_bare hw, read_text]
  show w.depth ≤ _ ∧ w.document? = some i ↔ _
  rw [hw.depth, hw.document, Option.some.injEq]

section

variable {α : Type} {j : Json} (read : Reader α)

/-- **A typed reader** reads a printed document as it reads the document. -/
theorem readText_print (h : j.Whole) (depth : j.depth ≤ nestingLimit) :
    readText read j.print = read j.toDraft := by
  rw [readText, ofText_print h, draftWithin_eq j depth]
  cases read j.toDraft <;> rfl

/-- A reader that goes through a generic value reads that of the document, if it does not lie too
deep. -/
theorem readGeneric_print (h : j.Whole) (depth : j.depth ≤ nestingLimit) :
    readGeneric read j.print = read j.canonical.toDraft := by
  rw [readGeneric, (read_print h).2 ⟨depth, rfl⟩]

/-- A document that lies too deep is not read as a generic value. -/
theorem readGeneric_deep (h : j.Whole) (deep : ¬j.depth ≤ nestingLimit) :
    ∃ f, readGeneric read j.print = .error (.fault f) := by
  cases hread : Json.read j.print with
  | error f => exact ⟨f, by rw [readGeneric, hread]⟩
  | ok i => exact absurd ((read_print h).1 hread).1 deep

end

end TableQuery.Json
