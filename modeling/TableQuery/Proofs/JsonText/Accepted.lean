import TableQuery.Proofs.JsonText.Written

/-!
# Accepted texts

Nothing is read but what the grammar of JSON allows. A scan that makes a document has come to the
end of that document, and has passed over something written on its way.

* **`exists_written`** — what is scanned and is a document is something written.
* **`read_eq_ok`** — a text is read if and only if it is written, lies within the nesting limit, and
  has no number out of range.
-/

namespace TableQuery.Json

/-! ## Words and scalars -/

/-- A word is scanned only where it stands. -/
theorem of_scanWord {word cs rest : List Char} (h : scanWord word cs = .ok rest) :
    cs = word ++ rest := by
  induction word generalizing cs with
  | nil =>
    cases h
    rfl
  | cons w word ih =>
    cases cs with
    | nil => cases h
    | cons c cs =>
      rw [scanWord] at h
      split at h
      · next heq => rw [heq, ih h, List.cons_append]
      · cases h

/-- A scalar that is a document has been scanned to its end. -/
theorem ofExcept_document {α : Type} {f : α → Draft} {x : Except Break (α × List Char)} {d : Draft}
    {after : Option (List Char)} {j : Json} (h : Scan.ofExcept f x = ⟨d, after⟩)
    (hdoc : d.document = .ok j) : ∃ a rest, x = .ok (a, rest) ∧ f a = d ∧ after = some rest := by
  cases x with
  | error b =>
    cases h
    cases hdoc
  | ok p =>
    obtain ⟨a, rest⟩ := p
    cases h
    exact ⟨a, rest, rfl, rfl, rfl⟩

/-- A word that is scanned and makes a document has been passed over as a whole. -/
theorem ofWord_document {word cs : List Char} {d d' : Draft} {after : Option (List Char)} {j : Json}
    (h : Scan.ofExcept (fun _ => d) ((scanWord word cs).map ((), ·)) = ⟨d', after⟩)
    (hdoc : d'.document = .ok j) : ∃ rest, after = some rest ∧ cs = word ++ rest ∧ d' = d := by
  obtain ⟨_, rest, hword, rfl, rfl⟩ := ofExcept_document h hdoc
  obtain ⟨behind, hbehind, heq⟩ := map_eq_ok.1 hword
  cases heq
  exact ⟨rest, rfl, of_scanWord hbehind, rfl⟩

/-! ## Containers -/

/-- Elements up to the closing bracket, with a comma before the first one. -/
def IsElements (room : Nat) (rest cs : List Char) (ds : List Draft) : Prop :=
  ∃ (e : Padded Written) (more : List (Padded Written)) (b : Blanks),
    cs = Written.elementChars (e :: more) ++ (b.chars ++ ']' :: rest)
      ∧ ds = Written.draftElements room (e :: more)

/-- Members up to the closing brace, with a comma before the first one. -/
def IsMembers (room : Nat) (rest cs : List Char) (ds : List (Name × Draft)) : Prop :=
  ∃ (m : Padded (List Piece) × Padded Written) (more : List (Padded (List Piece) × Padded Written))
    (b : Blanks), cs = Written.memberChars (m :: more) ++ (b.chars ++ '\x7d' :: rest)
      ∧ ds = Written.draftMembers room (m :: more)

section

variable {α : Type} (bracket : Char) (IsItems : List Char → List Char → List α → Prop)

/-- Items that have been scanned to their end: there are some, with a comma before the first one. -/
def Continues (after : Option (List Char)) (cs : List Char) (items : Items α) : Prop :=
  ∃ rest, after = some rest ∧ items.2 = none ∧ IsItems rest cs items.1

/-- Where a container may go on, either it does, or it is closed. -/
def GoesOn (after : Option (List Char)) (cs : List Char) (items : Items α) : Prop :=
  ∃ rest, after = some rest ∧ items.2 = none ∧ ∃ before : Blanks,
    (∃ behind, cs = before.chars ++ behind ∧ IsItems rest behind items.1)
      ∨ cs = before.chars ++ bracket :: rest ∧ items.1 = []

/-- Where a container begins, either its first item does, or it is closed. -/
def Begins (after : Option (List Char)) (cs : List Char) (items : Items α) : Prop :=
  ∃ rest, after = some rest ∧ items.2 = none ∧
    (IsItems rest (',' :: cs) items.1
      ∨ ∃ b : Blanks, cs = b.chars ++ bracket :: rest ∧ items.1 = [])

variable {bracket IsItems} {item : List Char → Scan (Items α)} {IsDocument : Items α → Prop}
  {cs : List Char} {s : Scan (Items α)}

/-- What can be scanned where a container goes on, if it is a document. -/
theorem goesOn_of_scanItems (stop : ∀ f, ¬IsDocument (Items.stop [] f).draft)
    (h : ∀ cs, IsDocument (item cs).draft → Continues IsItems (item cs).rest (',' :: cs)
      (item cs).draft)
    (hscan : scanItems bracket item false cs = s) (hdoc : IsDocument s.draft) :
    GoesOn bracket IsItems s.rest cs s.draft := by
  obtain ⟨before, hcs⟩ := exists_blanks cs
  -- behind an item the scan finds the end of the text, the bracket, a comma or something else
  rw [scanItems] at hscan
  split at hscan
  · subst hscan
    exact absurd hdoc (stop _)
  · next c behind hskip =>
    rw [hskip] at hcs
    split at hscan
    · next hclose =>
      subst hscan
      exact ⟨behind, rfl, rfl, before, .inr ⟨hclose ▸ hcs, rfl⟩⟩
    · rw [if_neg Bool.false_ne_true] at hscan
      split at hscan
      · next hcomma =>
        subst hscan
        obtain ⟨rest, hrest, hending, hitems⟩ := h behind hdoc
        exact ⟨rest, hrest, hending, before, .inl ⟨_, hcomma ▸ hcs, hitems⟩⟩
      · subst hscan
        exact absurd hdoc (stop _)

/-- What can be scanned where a container begins, if it is a document. -/
theorem begins_of_scanItems (stop : ∀ f, ¬IsDocument (Items.stop [] f).draft)
    (h : ∀ cs, IsDocument (item cs).draft → Continues IsItems (item cs).rest (',' :: cs)
      (item cs).draft)
    (blanks : ∀ cs, item (skipBlanks cs) = item cs)
    (hscan : scanItems bracket item true cs = s) (hdoc : IsDocument s.draft) :
    Begins bracket IsItems s.rest cs s.draft := by
  obtain ⟨before, hcs⟩ := exists_blanks cs
  rw [scanItems] at hscan
  split at hscan
  · subst hscan
    exact absurd hdoc (stop _)
  · next c behind hskip =>
    rw [hskip] at hcs
    split at hscan
    · next hclose =>
      subst hscan
      exact ⟨behind, rfl, rfl, .inr ⟨before, hclose ▸ hcs, rfl⟩⟩
    · -- the item is scanned from behind the blanks, which is the same as from in front of them
      rw [if_pos rfl, ← hskip, blanks] at hscan
      subst hscan
      obtain ⟨rest, hrest, hending, hitems⟩ := h cs hdoc
      exact ⟨rest, hrest, hending, .inl hitems⟩

end

/-- The elements are documents, and nothing breaks them off. -/
def AreDocuments (items : Items Draft) : Prop :=
  ∃ js, documentElements items.2 items.1 = .ok js

def AreMembers (items : Items (Name × Draft)) : Prop :=
  ∃ ms, documentMembers items.2 items.1 = .ok ms

/-- What is scanned with so much fuel and is a document has been scanned to its end, and is
something written. -/
structure Sound (fuel : Nat) : Prop where
  value {room : Nat} {cs : List Char} {s : Scan Draft} {j : Json} :
    scanValue fuel room cs = s → s.draft.document = .ok j →
      ∃ (rest : List Char) (before : Blanks) (w : Written),
        s.rest = some rest ∧ cs = before.chars ++ (w.chars ++ rest) ∧ s.draft = w.draft room
  element {room : Nat} {cs : List Char} {s : Scan (Items Draft)} :
    scanElement fuel room cs = s → AreDocuments s.draft →
      Continues (IsElements room) s.rest (',' :: cs) s.draft
  elements {room : Nat} {cs : List Char} {s : Scan (Items Draft)} :
    scanElements fuel room false cs = s → AreDocuments s.draft →
      GoesOn ']' (IsElements room) s.rest cs s.draft
  firstElements {room : Nat} {cs : List Char} {s : Scan (Items Draft)} :
    scanElements fuel room true cs = s → AreDocuments s.draft →
      Begins ']' (IsElements room) s.rest cs s.draft
  member {room : Nat} {cs : List Char} {s : Scan (Items (Name × Draft))} :
    scanMember fuel room cs = s → AreMembers s.draft →
      Continues (IsMembers room) s.rest (',' :: cs) s.draft
  members {room : Nat} {cs : List Char} {s : Scan (Items (Name × Draft))} :
    scanMembers fuel room false cs = s → AreMembers s.draft →
      GoesOn '\x7d' (IsMembers room) s.rest cs s.draft
  firstMembers {room : Nat} {cs : List Char} {s : Scan (Items (Name × Draft))} :
    scanMembers fuel room true cs = s → AreMembers s.draft →
      Begins '\x7d' (IsMembers room) s.rest cs s.draft

namespace Sound

variable {fuel room : Nat} {cs : List Char}

/-- An element that is scanned is something written, and so are those behind it. -/
theorem element_succ (h : Sound fuel) {s : Scan (Items Draft)}
    (hscan : scanElement (fuel + 1) room cs = s) (hdoc : AreDocuments s.draft) :
    Continues (IsElements room) s.rest (',' :: cs) s.draft := by
  obtain ⟨js, hdoc⟩ := hdoc
  rw [scanElement] at hscan
  generalize hv : scanValue fuel room cs = v at hscan
  obtain ⟨d, after⟩ := v
  cases after with
  | none =>
    -- a value that is a document has an end
    subst hscan
    obtain ⟨j, hj, -⟩ := bind_eq_ok.1 hdoc
    obtain ⟨_, _, _, hend, -⟩ := h.value hv hj
    cases hend
  | some behind =>
    subst hscan
    obtain ⟨j, hj, hdoc⟩ := bind_eq_ok.1 hdoc
    obtain ⟨js, hjs, -⟩ := bind_eq_ok.1 hdoc
    obtain ⟨_, start, w, hend, rfl, rfl⟩ := h.value hv hj
    cases hend
    obtain ⟨rest, hrest, hending, after, hmore⟩ := h.elements rfl ⟨js, hjs⟩
    refine ⟨rest, hrest, hending, ?_⟩
    rcases hmore with ⟨_, rfl, e, more, b, rfl, hds⟩ | ⟨rfl, hds⟩
    · exact ⟨⟨start, w, after⟩, e :: more, b, by simp [Written.elementChars],
        congrArg (w.draft room :: ·) hds⟩
    · exact ⟨⟨start, w, after⟩, [], .none, by simp [Written.elementChars],
        congrArg (w.draft room :: ·) hds⟩

theorem not_areDocuments (f : Fault) : ¬AreDocuments (Items.stop [] f).draft := nofun

theorem not_areMembers (f : Fault) : ¬AreMembers (Items.stop [] f).draft := nofun

/-- Behind an element, the array goes on with something written, or is closed. -/
theorem elements_succ (h : Sound fuel) {s : Scan (Items Draft)}
    (hscan : scanElements (fuel + 1) room false cs = s) (hdoc : AreDocuments s.draft) :
    GoesOn ']' (IsElements room) s.rest cs s.draft := by
  rw [scanElements_succ] at hscan
  exact goesOn_of_scanItems not_areDocuments (fun _ => h.element rfl) hscan hdoc

/-- An array begins with something written, or is closed. -/
theorem firstElements_succ (h : Sound fuel) {s : Scan (Items Draft)}
    (hscan : scanElements (fuel + 1) room true cs = s) (hdoc : AreDocuments s.draft) :
    Begins ']' (IsElements room) s.rest cs s.draft := by
  rw [scanElements_succ] at hscan
  exact begins_of_scanItems not_areDocuments (fun _ => h.element rfl) scanElement_skipBlanks hscan
    hdoc

/-- Behind a member, the object goes on with something written, or is closed. -/
theorem members_succ (h : Sound fuel) {s : Scan (Items (Name × Draft))}
    (hscan : scanMembers (fuel + 1) room false cs = s) (hdoc : AreMembers s.draft) :
    GoesOn '\x7d' (IsMembers room) s.rest cs s.draft := by
  rw [scanMembers_succ] at hscan
  exact goesOn_of_scanItems not_areMembers (fun _ => h.member rfl) hscan hdoc

/-- An object begins with something written, or is closed. -/
theorem firstMembers_succ (h : Sound fuel) {s : Scan (Items (Name × Draft))}
    (hscan : scanMembers (fuel + 1) room true cs = s) (hdoc : AreMembers s.draft) :
    Begins '\x7d' (IsMembers room) s.rest cs s.draft := by
  rw [scanMembers_succ] at hscan
  exact begins_of_scanItems not_areMembers (fun _ => h.member rfl) scanMember_skipBlanks hscan hdoc

/-- A member that is scanned is a name in quotes, a colon and a value, each between blanks. -/
theorem member_succ (h : Sound fuel) {s : Scan (Items (Name × Draft))}
    (hscan : scanMember (fuel + 1) room cs = s) (hdoc : AreMembers s.draft) :
    Continues (IsMembers room) s.rest (',' :: cs) s.draft := by
  obtain ⟨ms, hdoc⟩ := hdoc
  obtain ⟨before, hcs⟩ := exists_blanks cs
  -- each `split` is a place where the scan may stop, and where it stops there are no members
  rw [scanMember] at hscan
  split at hscan
  · subst hscan
    cases hdoc
  next c behind hskip =>
  rw [hskip] at hcs
  split at hscan
  rotate_left
  · subst hscan
    cases hdoc
  next hquote =>
  split at hscan
  · subst hscan
    cases hdoc
  next out behind hstring =>
  obtain ⟨blanks, hblanks⟩ := exists_blanks behind
  split at hscan
  · subst hscan
    obtain ⟨_, -, hdoc⟩ := bind_eq_ok.1 hdoc
    cases hdoc
  next c behind' hskip =>
  rw [hskip] at hblanks
  split at hscan
  rotate_left
  · subst hscan
    obtain ⟨_, -, hdoc⟩ := bind_eq_ok.1 hdoc
    cases hdoc
  next hcolon =>
  subst hquote hcolon
  generalize hv : scanValue fuel room behind' = v at hscan
  obtain ⟨d, after⟩ := v
  cases after with
  | none =>
    subst hscan
    obtain ⟨_, -, hdoc⟩ := bind_eq_ok.1 hdoc
    obtain ⟨j, hj, -⟩ := bind_eq_ok.1 hdoc
    -- a value that is read has an end, so the scan goes on behind it
    obtain ⟨_, _, _, hend, -⟩ := h.value hv hj
    cases hend
  | some behind'' =>
    subst hscan
    obtain ⟨name, hname, hdoc⟩ := bind_eq_ok.1 hdoc
    obtain ⟨j, hj, hdoc⟩ := bind_eq_ok.1 hdoc
    obtain ⟨ms, hms, -⟩ := bind_eq_ok.1 hdoc
    cases out with
    | none => cases hname
    | some out =>
      obtain ⟨ps, rfl, rfl⟩ := scanString_eq_ok.1 hstring
      obtain ⟨_, start, w, hend, rfl, rfl⟩ := h.value hv hj
      cases hend
      -- what follows the value is a comma and more members, or the bracket
      obtain ⟨rest, hrest, hending, after, hmore⟩ := h.members rfl ⟨ms, hms⟩
      refine ⟨rest, hrest, hending, ?_⟩
      rcases hmore with ⟨_, rfl, m, more, b, rfl, hds⟩ | ⟨rfl, hds⟩
      · exact ⟨(⟨before, ps, blanks⟩, ⟨start, w, after⟩), m :: more, b,
          by simp [Written.memberChars, hcs, hblanks],
          congrArg (List.cons (Name.text (content ps), w.draft room)) hds⟩
      · exact ⟨(⟨before, ps, blanks⟩, ⟨start, w, after⟩), [], .none,
          by simp [Written.memberChars, hcs, hblanks],
          congrArg (List.cons (Name.text (content ps), w.draft room)) hds⟩

/-- A value that is scanned is something written: which, is told by its first character. -/
theorem value_succ (h : Sound fuel) {s : Scan Draft} {j : Json}
    (hscan : scanValue (fuel + 1) room cs = s) (hdoc : s.draft.document = .ok j) :
    ∃ (rest : List Char) (before : Blanks) (w : Written),
      s.rest = some rest ∧ cs = before.chars ++ (w.chars ++ rest) ∧ s.draft = w.draft room := by
  obtain ⟨d, after⟩ := s
  obtain ⟨before, hcs⟩ := exists_blanks cs
  rw [scanValue] at hscan
  split at hscan
  · cases hscan
    cases hdoc
  next c behind hskip =>
  rw [hskip] at hcs
  split at hscan
  · next hc =>
    subst hc
    obtain ⟨rest, rfl, rfl, rfl⟩ := ofWord_document hscan hdoc
    exact ⟨rest, before, .null, rfl, hcs, rfl⟩
  split at hscan
  · next hc =>
    subst hc
    obtain ⟨rest, rfl, rfl, rfl⟩ := ofWord_document hscan hdoc
    exact ⟨rest, before, .bool true, rfl, hcs, rfl⟩
  split at hscan
  · next hc =>
    subst hc
    obtain ⟨rest, rfl, rfl, rfl⟩ := ofWord_document hscan hdoc
    exact ⟨rest, before, .bool false, rfl, hcs, rfl⟩
  split at hscan
  · next hc =>
    subst hc
    obtain ⟨out, rest, hstring, rfl, rfl⟩ := ofExcept_document hscan hdoc
    cases out with
    | none => cases hdoc
    | some out =>
      obtain ⟨ps, rfl, rfl⟩ := scanString_eq_ok.1 hstring
      exact ⟨rest, before, .string ps, rfl, hcs, rfl⟩
  split at hscan
  · obtain ⟨l, rest, hnumber, rfl, rfl⟩ := ofExcept_document hscan hdoc
    obtain ⟨n, rfl, hn⟩ := exists_numeral hnumber
    exact ⟨rest, before, .number n, rfl, hn ▸ hcs, rfl⟩
  split at hscan
  · next hc =>
    subst hc
    cases hscan
    obtain ⟨-, js, hjs, -⟩ := document_array.1 hdoc
    obtain ⟨rest, hrest, hending, hitems⟩ := h.firstElements rfl ⟨js, hjs⟩
    refine ⟨rest, before, ?_⟩
    rw [hending]
    rcases hitems with ⟨e, more, b, htext, hds⟩ | ⟨b, rfl, hds⟩
    · -- the comma in front of the first element is not there
      have htail := congrArg List.tail htext
      rw [List.tail_cons] at htail
      refine ⟨.array (e :: more) b, hrest, ?_, by rw [hds]; rfl⟩
      rw [hcs, htail, Written.array_chars]
      rfl
    · exact ⟨.array [] b, hrest, by rw [hcs, Written.array_nil_chars], by rw [hds]; rfl⟩
  split at hscan
  · next hc =>
    subst hc
    cases hscan
    obtain ⟨-, ms, hms, -⟩ := document_object.1 hdoc
    obtain ⟨rest, hrest, hending, hitems⟩ := h.firstMembers rfl ⟨ms, hms⟩
    refine ⟨rest, before, ?_⟩
    rw [hending]
    rcases hitems with ⟨m, more, b, htext, hds⟩ | ⟨b, rfl, hds⟩
    · have htail := congrArg List.tail htext
      rw [List.tail_cons] at htail
      refine ⟨.object (m :: more) b, hrest, ?_, by rw [hds]; rfl⟩
      rw [hcs, htail, Written.object_chars]
      rfl
    · exact ⟨.object [] b, hrest, by rw [hcs, Written.object_nil_chars], by rw [hds]; rfl⟩
  · cases hscan
    cases hdoc

end Sound

/-- What is scanned and is a document is something written, with however much fuel. -/
theorem sound (fuel : Nat) : Sound fuel := by
  induction fuel with
  | zero =>
    -- without fuel nothing is scanned
    constructor <;> intro room cs <;> intros <;> rename_i h hdoc <;> subst h <;>
      simp [scanValue, scanElement, scanElements, scanMember, scanMembers, Scan.broken, Items.stop,
        Draft.document, AreDocuments, AreMembers, documentElements, documentMembers] at hdoc
  | succ fuel ih =>
    exact ⟨ih.value_succ, ih.element_succ, ih.elements_succ, ih.firstElements_succ,
      ih.member_succ, ih.members_succ, ih.firstMembers_succ⟩

/-- **What is scanned and is a document** has been scanned to its end, and is something written. -/
theorem exists_written {fuel room : Nat} {cs : List Char} {j : Json}
    (h : (scanValue fuel room cs).draft.document = .ok j) :
    ∃ (rest : List Char) (before : Blanks) (w : Written),
      (scanValue fuel room cs).rest = some rest ∧ cs = before.chars ++ (w.chars ++ rest)
        ∧ (scanValue fuel room cs).draft = w.draft room :=
  (sound fuel).value rfl h

/-- **A text is read** if and only if it is written, lies within the nesting limit, and has no
number out of range. -/
theorem read_eq_ok {text : String} {j : Json} :
    Json.read text = .ok j ↔ ∃ w : Padded Written,
      w.text = text ∧ w.it.depth ≤ nestingLimit ∧ w.it.document? = some j := by
  constructor
  · intro h
    obtain ⟨i, hdoc, h⟩ := bind_eq_ok.1 h
    obtain ⟨rest, before, w, hrest, htext, hdraft⟩ := exists_written hdoc
    split at h
    · cases h
    · next htrailing =>
      cases h
      -- only blanks are behind the value
      have hblank : skipBlanks rest = [] := by
        simpa [Draft.ofText, hrest] using htrailing
      obtain ⟨after, hafter⟩ := exists_blanks rest
      rw [hblank, List.append_nil] at hafter
      have hdocument : (w.draft nestingLimit).document = .ok j := hdraft ▸ hdoc
      refine ⟨⟨before, w, after⟩, ?_, (Written.document_draft _ _ w).1 hdocument⟩
      rw [Padded.text, ← hafter, ← htext, String.ofList_toList]
  · rintro ⟨w, rfl, h⟩
    exact read_text.2 h

end TableQuery.Json
