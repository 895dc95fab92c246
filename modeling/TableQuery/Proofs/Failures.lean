import Mathlib.Logic.Basic
import Mathlib.Tactic.NthRewrite
import TableQuery.Store.Error

/-!
# What a failure is taken for

The store names the type of a failure, mostly with a qualifier before it that ends in `#`, and may
describe it in words. The code depends on the type and the status alone, and the status is kept. The
message is the description, so a type without a code is told only where there is no description, or
where the description happens to mention it.

* **`localName_iff`** — what stands after the last `#` of a text.
* **`ofErrorType?_eq_some_iff`** — a code is found if and only if its name stands there.
* **`ofBody_described`**, **`ofBody_undescribed`** — where the message comes from.
* **`failures_classified`** — what is made of every body, under every status.
* **`name_lost`** — a type without a code is not always told.
-/

namespace TableQuery.StoreError

/-! ## Types and codes -/

namespace Code

/-- A text, and what stands after its last `#`; that is the text itself if there is none. -/
inductive LocalName : String → String → Prop where
  | whole {name : String} (h : '#' ∉ name.toList) : LocalName name name
  | qualified (qualifier : String) {name : String} (h : '#' ∉ name.toList) :
    LocalName (qualifier ++ "#" ++ name) name

/-- Read from its end, a text is taken as far as it has no `#`. -/
theorem takeWhile_reverse_append {name : List Char} (h : '#' ∉ name) (rest : List Char) :
    (name.reverse ++ rest).takeWhile (· != '#') = name.reverse ++ rest.takeWhile (· != '#') := by
  refine List.takeWhile_append_of_pos fun c hc => ?_
  rw [bne_iff_ne]
  exact fun heq => h (heq ▸ List.mem_reverse.1 hc)

/-- A name without a mark is all of it. -/
theorem afterLastHash_of_not_mem {name : List Char} (h : '#' ∉ name) :
    afterLastHash name = name := by
  have htake := takeWhile_reverse_append h []
  rw [List.append_nil] at htake
  rw [afterLastHash, htake]
  simp

/-- Only the last mark counts, whatever stands before it. -/
theorem afterLastHash_append (qualifier : List Char) {name : List Char} (h : '#' ∉ name) :
    afterLastHash (qualifier ++ '#' :: name) = name := by
  have hreverse : (qualifier ++ '#' :: name).reverse
      = name.reverse ++ '#' :: qualifier.reverse := by
    simp
  rw [afterLastHash, hreverse, takeWhile_reverse_append h]
  simp

/-- **What stands after the last `#`** is what is looked up. -/
theorem localName_iff {text name : String} :
    LocalName text name ↔ String.ofList (afterLastHash text.toList) = name := by
  constructor
  · rintro (h | ⟨qualifier, h⟩)
    · rw [afterLastHash_of_not_mem h, String.ofList_toList]
    · have htext : (qualifier ++ "#" ++ name).toList = qualifier.toList ++ '#' :: name.toList := by
        simp
      rw [htext, afterLastHash_append _ h, String.ofList_toList]
  · rintro rfl
    by_cases hmem : '#' ∈ text.toList
    · -- the first `#` of the reversed text is the last one of the text
      obtain ⟨after, before, hreverse, hafter⟩ :=
        List.eq_append_cons_of_mem (List.mem_reverse.2 hmem)
      have hnot : '#' ∉ after.reverse := fun h => hafter (List.mem_reverse.1 h)
      have htext : text.toList = before.reverse ++ '#' :: after.reverse := by
        rw [← List.reverse_reverse text.toList, hreverse]
        simp
      have hwhole : text = String.ofList before.reverse ++ "#" ++ String.ofList after.reverse := by
        rw [← String.toList_inj, htext]
        simp
      rw [htext, afterLastHash_append _ hnot]
      nth_rewrite 1 [hwhole]
      exact .qualified _ (by rwa [String.toList_ofList])
    · rw [afterLastHash_of_not_mem hmem, String.ofList_toList]
      exact .whole hmem

theorem mem_all (code : Code) : code ∈ all := by
  cases code <;> decide

theorem text_inj {code code' : Code} (h : code.text = code'.text) : code = code' := by
  revert code code'
  have hall : ∀ code ∈ all, ∀ code' ∈ all, code.text = code'.text → code = code' := by decide
  exact fun {code code'} => hall code (mem_all code) code' (mem_all code')

/-- **A code is found** if and only if its name stands after the last `#`. -/
theorem ofErrorType?_eq_some_iff {errorType : String} {code : Code} :
    ofErrorType? errorType = some code ↔ LocalName errorType code.text := by
  rw [localName_iff, ofErrorType?]
  generalize String.ofList (afterLastHash errorType.toList) = name
  constructor
  · intro h
    have hname := List.find?_some h
    exact (beq_iff_eq.1 hname).symm
  · rintro rfl
    cases hfind : all.find? fun other => other.text == code.text with
    | none =>
      have hnot := List.find?_eq_none.1 hfind code (mem_all code)
      simp at hnot
    | some other =>
      have hname := List.find?_some hfind
      rw [text_inj (beq_iff_eq.1 hname)]

end Code

/-! ## Failures -/

/-- The body names this type of failure. -/
def HasType (body : Json) (errorType : String) : Prop :=
  body.get? "__type" = some (.string errorType)

/-- The type has no code. -/
def IsUnknown (errorType : String) : Prop := ∀ code : Code, ¬Code.LocalName errorType code.text

/-- The body describes the failure in these words, under one of two names of which the small one
counts if both are there. -/
def Describes (body : Json) (text : String) : Prop :=
  body.get? "message" = some (.string text)
    ∨ body.get? "message" = none ∧ body.get? "Message" = some (.string text)

/-- The code of a failure whose type does not tell it. -/
def fallback (status : Nat) : Code :=
  if 500 ≤ status ∧ status < 600 then .internalServerError else .validation

section

variable {status : Nat} {body : Json} {errorType text : String} {code : Code}

/-- A text is found only where a string stands. -/
theorem bind_string?_eq_some {j : Option Json} :
    j.bind Json.string? = some text ↔ j = some (.string text) := by
  rcases j with _ | j
  · simp
  · cases j <;> simp [Json.string?]

/-- The description is the string that is found first, under the small name or under the other. -/
theorem describes_iff :
    Describes body text
      ↔ ((body.get? "message").or (body.get? "Message")).bind Json.string? = some text := by
  rw [bind_string?_eq_some, Describes]
  cases body.get? "message" <;> simp

/-- No code is found for a type exactly if it is the name of none. -/
theorem isUnknown_iff : IsUnknown errorType ↔ Code.ofErrorType? errorType = none := by
  rw [Option.eq_none_iff_forall_ne_some]
  exact forall_congr' fun code => not_congr Code.ofErrorType?_eq_some_iff.symm

theorem isServerStatus_iff : isServerStatus status = true ↔ 500 ≤ status ∧ status < 600 := by
  simp [isServerStatus]

theorem ofBody_status : (ofBody status body).status = status := rfl

/-- The code is that of the type, and where this tells none, the one for the status. -/
theorem ofBody_code : (ofBody status body).code
    = (((body.get? "__type").bind Json.string?).bind Code.ofErrorType?).getD (fallback status) := by
  have hfallback : (if isServerStatus status then Code.internalServerError else .validation)
      = fallback status := by
    rw [fallback]
    exact if_congr isServerStatus_iff rfl rfl
  rw [← hfallback]
  rfl

/-- A type with a code is told by it, whatever the status is. -/
theorem ofBody_code_of_known (h : HasType body errorType)
    (known : Code.LocalName errorType code.text) : (ofBody status body).code = code := by
  rw [ofBody_code, bind_string?_eq_some.2 h, Option.bind_some,
    Code.ofErrorType?_eq_some_iff.2 known, Option.getD_some]

/-- Without such a type the status decides. -/
theorem ofBody_code_of_unknown (h : ∀ errorType, HasType body errorType → IsUnknown errorType) :
    (ofBody status body).code = fallback status := by
  have hnone : ((body.get? "__type").bind Json.string?).bind Code.ofErrorType? = none := by
    cases htype : (body.get? "__type").bind Json.string? with
    | none => rfl
    | some errorType => exact isUnknown_iff.1 (h errorType (bind_string?_eq_some.1 htype))
  rw [ofBody_code, hnone, Option.getD_none]

/-- **A failure that is described** has its description for a message. -/
theorem ofBody_described (h : Describes body text) : (ofBody status body).message = text := by
  show Option.getD _ _ = text
  rw [describes_iff.1 h, Option.getD_some]

/-- Without a description, the message is the type, and without a type the text of the code. -/
theorem ofBody_of_no_description (h : ∀ text, ¬Describes body text) :
    (ofBody status body).message
      = ((body.get? "__type").bind Json.string?).getD (ofBody status body).code.text := by
  have hnone : ((body.get? "message").or (body.get? "Message")).bind Json.string? = none :=
    Option.eq_none_iff_forall_ne_some.2 fun text htext => h text (describes_iff.2 htext)
  show Option.getD _ _ = _
  rw [hnone, Option.getD_none]
  rfl

/-- **A failure that is not described** has its type for a message. -/
theorem ofBody_undescribed (h : ∀ text, ¬Describes body text) (htype : HasType body errorType) :
    (ofBody status body).message = errorType := by
  rw [ofBody_of_no_description h, bind_string?_eq_some.2 htype, Option.getD_some]

/-- If there is no type either, the message is the name of the code. -/
theorem ofBody_untyped (h : ∀ text, ¬Describes body text)
    (htype : ∀ errorType, ¬HasType body errorType) :
    (ofBody status body).message = (ofBody status body).code.text := by
  have hnone : (body.get? "__type").bind Json.string? = none :=
    Option.eq_none_iff_forall_ne_some.2 fun t ht => htype t (bind_string?_eq_some.1 ht)
  rw [ofBody_of_no_description h, hnone, Option.getD_none]

end

/-- **Every failure is classified.** Whatever the body is, the status is kept. A type after whose
last `#` the name of a code stands has this code, whatever comes before; in every other case the
status decides, and is an internal error of the server from 500 to 599. The message is the
description, the type if there is none, and the name of the code if there is neither. So a type
without a code is told in the message exactly where the description, if there is one, tells it. -/
theorem failures_classified (status : Nat) (body : Json) :
    (ofBody status body).status = status
      ∧ (∀ errorType (code : Code), HasType body errorType →
          Code.LocalName errorType code.text → (ofBody status body).code = code)
      ∧ ((∀ errorType, HasType body errorType → IsUnknown errorType) →
          (ofBody status body).code
            = if 500 ≤ status ∧ status < 600 then .internalServerError else .validation)
      ∧ (∀ text, Describes body text → (ofBody status body).message = text)
      ∧ ((∀ text, ¬Describes body text) →
          (∀ errorType, HasType body errorType → (ofBody status body).message = errorType)
            ∧ ((∀ errorType, ¬HasType body errorType) →
              (ofBody status body).message = (ofBody status body).code.text))
      ∧ ∀ errorType, HasType body errorType → IsUnknown errorType →
          (errorType.toList <:+: (ofBody status body).message.toList
            ↔ ∀ text, Describes body text → errorType.toList <:+: text.toList) := by
  refine ⟨ofBody_status, fun errorType code => ofBody_code_of_known, ofBody_code_of_unknown,
    fun text => ofBody_described,
    fun h => ⟨fun errorType => ofBody_undescribed h, ofBody_untyped h⟩,
    fun errorType htype _ => ⟨fun h text htext => ?_, fun h => ?_⟩⟩
  · rwa [ofBody_described htext] at h
  · by_cases hdescribed : ∃ text, Describes body text
    · obtain ⟨text, htext⟩ := hdescribed
      rw [ofBody_described htext]
      exact h text htext
    · -- without a description the message is the type itself
      have hmessage : (ofBody status body).message = errorType :=
        ofBody_undescribed (not_exists.1 hdescribed) htype
      exact hmessage.symm ▸ List.infix_rfl

/-- A type behind two qualifiers, which has a code. -/
def throttled : Json := .object [
  ("Message", .string "Slow down"),
  ("__type", .string "com.amazonaws#v20120810#ThrottlingException")]

/-- A type that has no code, and a description that does not mention it. -/
def unheardOf : Json := .object [
  ("__type", .string "x#SomethingNew"),
  ("message", .string "boom")]

/-- The type of a failure that nobody has heard of, in a body where no text describes it. -/
def undescribed : Json := .object [
  ("Message", .string "boom"),
  ("__type", .string "SomethingNew#"),
  ("message", .null)]

/-- Neither type has a code, with a qualifier or with nothing behind it. -/
theorem isUnknown_somethingNew : IsUnknown "x#SomethingNew" ∧ IsUnknown "SomethingNew#" := by
  rw [isUnknown_iff, isUnknown_iff]
  decide

/-- A known type behind two qualifiers, an unknown one without a description, a body that is no
object, and an unknown type that the description does not mention. -/
theorem failures_classified_spread :
    (ofBody 400 throttled).code = .throttling
      ∧ (ofBody 400 throttled).message = "Slow down"
      ∧ (ofBody 503 undescribed).code = .internalServerError
      ∧ (ofBody 503 undescribed).message = "SomethingNew#"
      ∧ (ofBody 600 (.array [])).code = .validation
      ∧ (ofBody 600 (.array [])).message = (ofBody 600 (.array [])).code.text
      ∧ ¬"x#SomethingNew".toList <:+: (ofBody 400 unheardOf).message.toList := by
  obtain ⟨-, known, -, described, -, -⟩ := failures_classified 400 throttled
  obtain ⟨-, -, unknown, -, told, -⟩ := failures_classified 503 undescribed
  obtain ⟨-, -, untyped, -, code, -⟩ := failures_classified 600 (.array [])
  obtain ⟨-, -, -, -, -, mentioned⟩ := failures_classified 400 unheardOf
  have hqualified : Code.LocalName "com.amazonaws#v20120810#ThrottlingException"
      Code.throttling.text := Code.localName_iff.2 (by decide)
  have hunknown : ∀ errorType, HasType undescribed errorType → IsUnknown errorType := by
    rintro errorType htype
    cases htype
    exact isUnknown_somethingNew.2
  have hnone : ∀ text, ¬Describes undescribed text := by
    rintro text (h | ⟨h, -⟩) <;> cases h
  have hempty : ∀ text, ¬Describes (.array []) text := by
    rintro text (h | ⟨-, h⟩) <;> cases h
  refine ⟨known _ _ rfl hqualified, described _ (.inr ⟨rfl, rfl⟩), unknown hunknown,
    (told hnone).1 _ rfl, untyped nofun, (code hempty).2 nofun, fun h => ?_⟩
  have hboom := (mentioned _ rfl isUnknown_somethingNew.1).1 h "boom" (.inl rfl)
  revert hboom
  decide

/-- **A type without a code is not always told**: a description takes its place. -/
theorem name_lost : ¬∀ (status : Nat) (body : Json) (errorType : String),
    HasType body errorType → IsUnknown errorType →
      errorType.toList <:+: (ofBody status body).message.toList := by
  intro h
  have hinfix := h 400 unheardOf "x#SomethingNew" rfl isUnknown_somethingNew.1
  revert hinfix
  decide

end TableQuery.StoreError
