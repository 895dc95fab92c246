import Mathlib.Data.List.Basic
import Mathlib.Tactic.SplitIfs
import TableQuery.Base64
import TableQuery.Proofs.Report

/-!
# Base64 back and forth

The texts that can be decoded are the encodings, and each of them decodes to the bytes it encodes.
A text is decoded from its UTF-8 bytes, so both directions are shown for these: the encoder and the
decoder are compared quad by quad, and no other text has the bytes of an encoding.

* **`value?_eq_some`** — the symbols and their values.
* **`quad_iff`** — three bytes and the values of their four symbols determine each other.
* **`lastSymbols_eq_ok`** — what the last quad may look like.
* **`decode_eq_ok`** — a text decodes to some bytes if and only if it is their encoding.
* **`canonical_iff`** — the texts that are encodings, described by themselves.
-/

namespace TableQuery.Base64

/-! ## Symbols -/

theorem toNat_ofNat {n : Nat} (h : n < 128) : (Char.ofNat n).toNat = n := by
  rw [Char.ofNat, dif_pos (Or.inl (by omega))]
  rfl

/-- The code of the symbol of a value. -/
def code (v : Nat) : Nat :=
  if v < 26 then v + 65 else if v < 52 then v + 71 else if v < 62 then v - 4
  else if v = 62 then 43 else 47

/-- The symbols stand in five ranges of codes. -/
theorem symbol_toNat {v : Nat} (h : v < 64) : (symbol v).toNat = code v := by
  unfold symbol code
  -- the alphabet is two ranges of letters, the digits, and two further symbols
  split_ifs <;> first | rfl | exact toNat_ofNat (by omega)

/-- All symbols are ASCII characters. -/
theorem symbol_toNat_lt {v : Nat} (h : v < 64) : (symbol v).toNat < 128 := by
  rw [symbol_toNat h, code]
  split_ifs <;> omega

/-- The byte of the symbol of a value. -/
def sign (v : Nat) : UInt8 := UInt8.ofNat (symbol v).toNat

/-- No bit of a symbol is lost in its byte. -/
theorem sign_toNat {v : Nat} (h : v < 64) : (sign v).toNat = (symbol v).toNat := by
  have hlt := symbol_toNat_lt h
  rw [sign, UInt8.toNat_ofNat']
  omega

/-- The bytes that are symbols are those of the 64 values. -/
theorem value?_eq_some {byte : UInt8} {v : Nat} :
    value? byte = some v ↔ v < 64 ∧ byte = sign v := by
  have hsign (h : v < 64) : byte = sign v ↔ byte.toNat = (symbol v).toNat := by
    rw [← UInt8.toNat_inj, sign_toNat h]
  have hvalue : value? byte = some v ↔ v < 64 ∧ byte.toNat = code v := by
    unfold value? code
    dsimp only
    split_ifs <;> simp <;> omega
  rw [hvalue]
  exact and_congr_right fun h => by rw [hsign h, symbol_toNat h]

theorem value?_sign {v : Nat} (h : v < 64) : value? (sign v) = some v :=
  value?_eq_some.2 ⟨h, rfl⟩

theorem value?_pad : value? pad = none := by decide

/-- A byte that has a value is accepted wherever it stands. -/
theorem valueAt_eq_ok {offset : Nat} {byte : UInt8} {v : Nat} :
    valueAt offset byte = .ok v ↔ value? byte = some v := by
  unfold valueAt
  split
  · next h => rw [h, Except.ok.injEq, Option.some.injEq]
  · next h => simp [h]

/-- An ASCII character is its code in UTF-8. -/
theorem utf8EncodeChar_ascii {c : Char} (h : c.toNat < 128) :
    String.utf8EncodeChar c = [UInt8.ofNat c.toNat] := by
  -- one byte is enough for it
  have hsize : c.utf8Size = 1 := by
    rw [Char.utf8Size_eq_one_iff, UInt32.le_iff_toNat_le]
    exact Nat.le_of_lt_succ h
  rw [String.utf8EncodeChar_eq_singleton hsize]
  rfl

theorem utf8EncodeChar_symbol {v : Nat} (h : v < 64) :
    String.utf8EncodeChar (symbol v) = [sign v] := utf8EncodeChar_ascii (symbol_toNat_lt h)

/-- No two texts have the same bytes. -/
theorem utf8_inj {s t : String} : utf8 s = utf8 t ↔ s = t := by
  refine ⟨fun h => ?_, congrArg utf8⟩
  have hbytes : s.toList.utf8Encode = t.toList.utf8Encode := congrArg List.toByteArray h
  rwa [String.utf8Encode_toList, String.utf8Encode_toList, String.toByteArray_inj] at hbytes

/-! ## Quads -/

section

variable {a b c : UInt8} {v w x y : Nat}

/-- Three bytes are cut into four values, and put together from them. -/
theorem quad_iff (hv : v < 64) (hw : w < 64) (hx : x < 64) (hy : y < 64) :
    (a.toNat / 4 = v ∧ a.toNat % 4 * 16 + b.toNat / 16 = w ∧ b.toNat % 16 * 4 + c.toNat / 64 = x
        ∧ c.toNat % 64 = y)
      ↔ a = UInt8.ofNat (v * 4 + w / 16) ∧ b = UInt8.ofNat (w % 16 * 16 + x / 4)
        ∧ c = UInt8.ofNat (x % 4 * 64 + y) := by
  have ha := a.toNat_lt
  have hb := b.toNat_lt
  have hc := c.toNat_lt
  simp only [← UInt8.toNat_inj, UInt8.toNat_ofNat']
  omega

/-- Two bytes leave two bits of their third value unused. -/
theorem triple_iff (hv : v < 64) (hw : w < 64) (hx : x < 64) :
    (a.toNat / 4 = v ∧ a.toNat % 4 * 16 + b.toNat / 16 = w ∧ b.toNat % 16 * 4 = x)
      ↔ a = UInt8.ofNat (v * 4 + w / 16) ∧ b = UInt8.ofNat (w % 16 * 16 + x / 4) ∧ x % 4 = 0 := by
  have ha := a.toNat_lt
  have hb := b.toNat_lt
  simp only [← UInt8.toNat_inj, UInt8.toNat_ofNat']
  omega

/-- One byte leaves four bits of its second value unused. -/
theorem pair_iff (hv : v < 64) (hw : w < 64) :
    (a.toNat / 4 = v ∧ a.toNat % 4 * 16 = w)
      ↔ a = UInt8.ofNat (v * 4 + w / 16) ∧ w % 16 = 0 := by
  have ha := a.toNat_lt
  simp only [← UInt8.toNat_inj, UInt8.toNat_ofNat']
  omega

end

/-! ## The bytes of an encoding -/

def encoded (bytes : List UInt8) : List UInt8 := utf8 (encode bytes)

theorem encoded_eq (bytes : List UInt8) :
    encoded bytes = (encodeChars bytes).flatMap String.utf8EncodeChar := by
  rw [encoded, utf8, encode, String.toList_ofList]

theorem utf8EncodeChar_pad : String.utf8EncodeChar '=' = [pad] := by decide

theorem encoded_nil : encoded [] = [] := by
  rw [encoded_eq, encodeChars, List.flatMap_nil]

/-- One byte is encoded as two symbols and two paddings. -/
theorem encoded_one (a : UInt8) :
    encoded [a] = [sign (a.toNat / 4), sign (a.toNat % 4 * 16), pad, pad] := by
  have ha := a.toNat_lt
  rw [encoded_eq, encodeChars]
  simp (disch := omega) [utf8EncodeChar_symbol, utf8EncodeChar_pad]

/-- Two bytes are encoded as three symbols and one padding. -/
theorem encoded_two (a b : UInt8) :
    encoded [a, b]
      = [sign (a.toNat / 4), sign (a.toNat % 4 * 16 + b.toNat / 16), sign (b.toNat % 16 * 4), pad] := by
  have ha := a.toNat_lt
  have hb := b.toNat_lt
  rw [encoded_eq, encodeChars]
  simp (disch := omega) [utf8EncodeChar_symbol, utf8EncodeChar_pad]

/-- Three bytes are encoded as four symbols, in front of the encoding of the rest. -/
theorem encoded_cons (a b c : UInt8) (rest : List UInt8) :
    encoded (a :: b :: c :: rest)
      = sign (a.toNat / 4) :: sign (a.toNat % 4 * 16 + b.toNat / 16)
        :: sign (b.toNat % 16 * 4 + c.toNat / 64) :: sign (c.toNat % 64) :: encoded rest := by
  have ha := a.toNat_lt
  have hb := b.toNat_lt
  have hc := c.toNat_lt
  rw [encoded_eq, encodeChars, encoded_eq]
  simp (disch := omega) [utf8EncodeChar_symbol]

/-- Encodings consist of whole quads. -/
theorem encoded_length (bytes : List UInt8) : (encoded bytes).length % 4 = 0 := by
  induction bytes using encodeChars.induct with
  | case1 => rw [encoded_nil]; rfl
  | case2 a => simp [encoded_one]
  | case3 a b => simp [encoded_two]
  | case4 a b c rest ih =>
    simp only [encoded_cons, List.length_cons]
    omega

theorem encoded_eq_nil {bytes : List UInt8} : encoded bytes = [] ↔ bytes = [] := by
  rcases bytes with _ | ⟨a, _ | ⟨b, _ | ⟨c, rest⟩⟩⟩
    <;> simp [encoded_nil, encoded_one, encoded_two, encoded_cons]

/-! ## The last quad -/

/-- Symbols with padding after them, which does not begin before the third place, are read as what
they are. -/
theorem lastSymbols_signs {start place : Nat} (vs : List Nat) (pads : Nat) (h : ∀ v ∈ vs, v < 64)
    (hpads : pads = 0 ∨ 2 ≤ place + vs.length) :
    lastSymbols start place (vs.map sign ++ List.replicate pads pad)
      = .ok (vs.map fun v => (sign v, v), pads) := by
  induction vs generalizing place with
  | nil =>
    cases pads with
    | zero => rfl
    | succ n =>
      have hplace : ¬place < 2 := by
        rw [List.length_nil] at hpads
        omega
      rw [List.map_nil, List.nil_append, List.replicate_succ, lastSymbols, if_pos rfl, if_neg hplace,
        if_pos (by simp)]
      simp
  | cons v rest ih =>
    have hv := value?_sign (h v List.mem_cons_self)
    -- no sign of a symbol is the padding, so the scan does not stop here
    have hne : sign v ≠ pad := by
      intro heq
      rw [heq, value?_pad] at hv
      cases hv
    have hrest : pads = 0 ∨ 2 ≤ place + 1 + rest.length := by
      rw [List.length_cons] at hpads
      omega
    rw [List.map_cons, List.cons_append, lastSymbols, if_neg hne, valueAt_eq_ok.2 hv,
      ih (fun w hw => h w (List.mem_cons_of_mem _ hw)) hrest]
    rfl

/-- Nothing else is read as a last quad. -/
theorem lastSymbols_inv {start place pads : Nat} {quad : List UInt8} {symbols : List (UInt8 × Nat)}
    (h : lastSymbols start place quad = .ok (symbols, pads)) :
    ∃ vs : List Nat, (∀ v ∈ vs, v < 64) ∧ symbols = vs.map (fun v => (sign v, v))
      ∧ quad = vs.map sign ++ List.replicate pads pad := by
  induction quad generalizing place symbols pads with
  | nil =>
    rw [lastSymbols, Except.ok.injEq, Prod.mk.injEq] at h
    obtain ⟨rfl, rfl⟩ := h
    exact ⟨[], by simp⟩
  | cons byte rest ih =>
    rw [lastSymbols] at h
    by_cases hpad : byte = pad
    · rw [if_pos hpad] at h
      -- padding may begin with the third symbol only
      by_cases hplace : place < 2
      · rw [if_pos hplace] at h
        cases h
      rw [if_neg hplace] at h
      -- behind the first padding there is nothing but padding
      by_cases hall : rest.all (· == pad) = true
      · rw [if_pos hall, Except.ok.injEq, Prod.mk.injEq] at h
        obtain ⟨rfl, rfl⟩ := h
        refine ⟨[], by simp, rfl, ?_⟩
        rw [List.map_nil, List.nil_append, List.replicate_succ, hpad, List.cons.injEq]
        exact ⟨rfl, List.eq_replicate_of_mem (by simpa using hall)⟩
      · rw [if_neg hall] at h
        cases h
    · rw [if_neg hpad] at h
      obtain ⟨v, hv, htail⟩ := bind_eq_ok.1 h
      obtain ⟨⟨more, n⟩, hmore, hok⟩ := bind_eq_ok.1 htail
      obtain ⟨vs, hvs, rfl, rfl⟩ := ih hmore
      obtain ⟨hlt, rfl⟩ := value?_eq_some.1 (valueAt_eq_ok.1 hv)
      cases hok
      exact ⟨v :: vs, by simpa using ⟨hlt, hvs⟩, rfl, rfl⟩

/-- The last bits that belong to no byte have to be zero. -/
theorem finish_eq_ok {byte : UInt8} {offset leftover : Nat} {bytes out : List UInt8} :
    finish byte offset leftover bytes = .ok out ↔ leftover = 0 ∧ bytes = out := by
  unfold finish
  split <;> simp [*]

section

variable {start v w x y : Nat}

/-- Two symbols and two paddings are one byte, with four bits left over. -/
theorem decodeLast_pair (hv : v < 64) (hw : w < 64) :
    decodeLast start [sign v, sign w, pad, pad]
      = finish (sign w) (start + 1) (w % 16) [UInt8.ofNat (v * 4 + w / 16)] := by
  have hlast : lastSymbols start 0 [sign v, sign w, pad, pad]
      = .ok ([(sign v, v), (sign w, w)], 2) :=
    lastSymbols_signs [v, w] 2 (by simp [hv, hw]) (.inr (by simp))
  simp [decodeLast, hlast, bind, Except.bind]

/-- Three symbols and one padding are two bytes, with two bits left over. -/
theorem decodeLast_triple (hv : v < 64) (hw : w < 64) (hx : x < 64) :
    decodeLast start [sign v, sign w, sign x, pad]
      = finish (sign x) (start + 2) (x % 4)
        [UInt8.ofNat (v * 4 + w / 16), UInt8.ofNat (w % 16 * 16 + x / 4)] := by
  have hlast : lastSymbols start 0 [sign v, sign w, sign x, pad]
      = .ok ([(sign v, v), (sign w, w), (sign x, x)], 1) :=
    lastSymbols_signs [v, w, x] 1 (by simp [hv, hw, hx]) (.inr (by simp))
  simp [decodeLast, hlast, bind, Except.bind]

/-- Four symbols are three bytes, with nothing left over. -/
theorem decodeLast_quad (hv : v < 64) (hw : w < 64) (hx : x < 64) (hy : y < 64) :
    decodeLast start [sign v, sign w, sign x, sign y]
      = .ok [UInt8.ofNat (v * 4 + w / 16), UInt8.ofNat (w % 16 * 16 + x / 4),
        UInt8.ofNat (x % 4 * 64 + y)] := by
  have hlast : lastSymbols start 0 [sign v, sign w, sign x, sign y]
      = .ok ([(sign v, v), (sign w, w), (sign x, x), (sign y, y)], 0) :=
    lastSymbols_signs [v, w, x, y] 0 (by simp [hv, hw, hx, hy]) (.inl rfl)
  simp [decodeLast, hlast, bind, Except.bind]

end

/-- What is decoded as the last quad has two symbols at least, and is filled up with padding. -/
theorem decodeLast_inv {start : Nat} {quad bytes : List UInt8} (hpos : 0 < quad.length)
    (hle : quad.length ≤ 4) (h : decodeLast start quad = .ok bytes) :
    ∃ vs : List Nat, ∃ pads, (∀ v ∈ vs, v < 64) ∧ 2 ≤ vs.length ∧ vs.length + pads = 4
      ∧ quad = vs.map sign ++ List.replicate pads pad := by
  obtain ⟨⟨symbols, pads⟩, hlast, hok⟩ := bind_eq_ok.1 h
  obtain ⟨vs, hvs, rfl, rfl⟩ := lastSymbols_inv hlast
  simp only [List.length_append, List.length_map, List.length_replicate] at hpos hle hok
  split_ifs at hok with htwo hfour
  exact ⟨vs, pads, hvs, by omega, by omega, rfl⟩

/-- The last quad is decoded if and only if it is the encoding of one, two or three bytes. -/
theorem decodeLast_eq_ok {start : Nat} {quad bytes : List UInt8} (hpos : 0 < quad.length)
    (hle : quad.length ≤ 4) : decodeLast start quad = .ok bytes ↔ quad = encoded bytes := by
  constructor
  · intro h
    obtain ⟨vs, pads, hvs, htwo, hfill, rfl⟩ := decodeLast_inv hpos hle h
    rcases vs with _ | ⟨v, _ | ⟨w, _ | ⟨x, _ | ⟨y, _ | ⟨z, rest⟩⟩⟩⟩⟩
    · simp at htwo
    · simp at htwo
    · obtain rfl : pads = 2 := Nat.add_left_cancel hfill
      simp only [List.forall_mem_cons] at hvs
      obtain ⟨hspare, rfl⟩ := finish_eq_ok.1 (decodeLast_pair hvs.1 hvs.2.1 ▸ h)
      obtain ⟨hfst, hsnd⟩ := (pair_iff hvs.1 hvs.2.1).2 ⟨rfl, hspare⟩
      rw [encoded_one, hfst, hsnd]
      rfl
    · obtain rfl : pads = 1 := Nat.add_left_cancel hfill
      simp only [List.forall_mem_cons] at hvs
      obtain ⟨hspare, rfl⟩ := finish_eq_ok.1 (decodeLast_triple hvs.1 hvs.2.1 hvs.2.2.1 ▸ h)
      obtain ⟨hfst, hsnd, hthd⟩ := (triple_iff hvs.1 hvs.2.1 hvs.2.2.1).2 ⟨rfl, rfl, hspare⟩
      rw [encoded_two, hfst, hsnd, hthd]
      rfl
    · obtain rfl : pads = 0 := Nat.add_left_cancel hfill
      simp only [List.forall_mem_cons] at hvs
      obtain ⟨hv, hw, hx, hy, -⟩ := hvs
      obtain rfl := Except.ok.inj (decodeLast_quad hv hw hx hy ▸ h)
      obtain ⟨hfst, hsnd, hthd, hfth⟩ := (quad_iff hv hw hx hy).2 ⟨rfl, rfl, rfl⟩
      rw [encoded_cons, hfst, hsnd, hthd, hfth, encoded_nil]
      rfl
    · simp only [List.length_cons] at hfill
      omega
  · rintro rfl
    rcases bytes with _ | ⟨a, _ | ⟨b, _ | ⟨c, rest⟩⟩⟩
    · rw [encoded_nil] at hpos
      cases hpos
    · have ha := a.toNat_lt
      obtain ⟨hbyte, hspare⟩ := (pair_iff (a := a) (by omega) (by omega)).1 ⟨rfl, rfl⟩
      rw [encoded_one, decodeLast_pair (by omega) (by omega), ← hbyte]
      exact finish_eq_ok.2 ⟨hspare, rfl⟩
    · have ha := a.toNat_lt
      have hb := b.toNat_lt
      obtain ⟨hfst, hsnd, hspare⟩ :=
        (triple_iff (a := a) (b := b) (by omega) (by omega) (by omega)).1 ⟨rfl, rfl, rfl⟩
      rw [encoded_two, decodeLast_triple (by omega) (by omega) (by omega), ← hfst, ← hsnd]
      exact finish_eq_ok.2 ⟨hspare, rfl⟩
    · have ha := a.toNat_lt
      have hb := b.toNat_lt
      have hc := c.toNat_lt
      -- the four symbols of three bytes leave no room for more
      obtain rfl : rest = [] := by
        rw [encoded_cons] at hle
        simp only [List.length_cons] at hle
        exact encoded_eq_nil.1 (List.length_eq_zero_iff.1 (by omega))
      obtain ⟨hfst, hsnd, hthd⟩ :=
        (quad_iff (a := a) (b := b) (c := c) (by omega) (by omega) (by omega) (by omega)).1
          ⟨rfl, rfl, rfl, rfl⟩
      rw [encoded_cons, encoded_nil, decodeLast_quad (by omega) (by omega) (by omega) (by omega),
        ← hfst, ← hsnd, ← hthd]

/-! ## Texts -/

/-- A quad before the last one is decoded to three bytes, and they are encoded as this quad. -/
theorem decodeFrom_quad {start : Nat} {a b c d e : UInt8} {rest bytes : List UInt8}
    (ih : ∀ {more}, decodeFrom (start + 4) (e :: rest) = .ok more ↔ e :: rest = encoded more) :
    decodeFrom start (a :: b :: c :: d :: e :: rest) = .ok bytes
      ↔ a :: b :: c :: d :: e :: rest = encoded bytes := by
  rw [decodeFrom]
  simp only [bind_eq_ok, valueAt_eq_ok, value?_eq_some, ih]
  constructor
  · rintro ⟨v, ⟨hv, rfl⟩, w, ⟨hw, rfl⟩, x, ⟨hx, rfl⟩, y, ⟨hy, rfl⟩, more, hmore, hok⟩
    cases hok
    obtain ⟨hfst, hsnd, hthd, hfth⟩ := (quad_iff hv hw hx hy).2 ⟨rfl, rfl, rfl⟩
    rw [encoded_cons, hfst, hsnd, hthd, hfth, hmore]
  · intro h
    -- fewer than three bytes are encoded in one quadruple, and here there is more than one
    rcases bytes with _ | ⟨p, _ | ⟨q, _ | ⟨r, more⟩⟩⟩
    · simp [encoded_nil] at h
    · simp [encoded_one] at h
    · simp [encoded_two] at h
    · have hp := p.toNat_lt
      have hq := q.toNat_lt
      have hr := r.toNat_lt
      simp only [encoded_cons, List.cons.injEq] at h
      obtain ⟨ha, hb, hc, hd, hmore⟩ := h
      obtain ⟨hfst, hsnd, hthd⟩ :=
        (quad_iff (a := p) (b := q) (c := r) (by omega) (by omega) (by omega) (by omega)).1
          ⟨rfl, rfl, rfl, rfl⟩
      refine ⟨_, ⟨by omega, ha⟩, _, ⟨by omega, hb⟩, _, ⟨by omega, hc⟩, _, ⟨by omega, hd⟩, more, hmore,
        ?_⟩
      rw [← hfst, ← hsnd, ← hthd]
      rfl

/-- By induction on the quads. Where a quad starts only matters for errors. -/
theorem decodeFrom_eq_ok {start : Nat} {text bytes : List UInt8} :
    decodeFrom start text = .ok bytes ↔ text = encoded bytes := by
  induction start, text using decodeFrom.induct generalizing bytes with
  | case1 =>
    rw [decodeFrom, Except.ok.injEq, eq_comm, eq_comm (a := []), encoded_eq_nil]
  | case2 start a b c d e rest ih => exact decodeFrom_quad ih
  | case3 start quad hne hlong =>
    have hpos : 0 < quad.length := List.length_pos_iff.2 hne
    -- five bytes or more are the case before
    have hle : quad.length ≤ 4 := by
      rcases quad with _ | ⟨a, _ | ⟨b, _ | ⟨c, _ | ⟨d, _ | ⟨e, rest⟩⟩⟩⟩⟩
      all_goals first | exact absurd rfl (hlong _ _ _ _ _ _) | simp
    rw [decodeFrom]
    · exact decodeLast_eq_ok hpos hle
    · exact hne
    · exact hlong

/-- **Decoding**: a text decodes to some bytes if and only if it is their encoding. -/
theorem decode_eq_ok {text : String} {bytes : List UInt8} :
    decode text = .ok bytes ↔ text = encode bytes := by
  constructor
  · intro h
    rw [decode, decodeBytes] at h
    split at h
    · cases h
    · exact utf8_inj.1 (decodeFrom_eq_ok.1 h)
  · rintro rfl
    -- nothing stands alone after the quads of an encoding
    have hlength : (utf8 (encode bytes)).length % 4 = 0 := encoded_length bytes
    have hstray : strayLast? (utf8 (encode bytes)) = none := by
      rw [strayLast?, if_neg (by omega)]
    rw [decode, decodeBytes, hstray]
    exact decodeFrom_eq_ok.2 rfl

/-! ## Canonical texts -/

/-- The padded texts in which no bit is set that belongs to no byte: quads of symbols, of which the
last may have two or three symbols only. -/
inductive Canonical : List Char → Prop where
  | nil : Canonical []
  | pair {v w : Nat} (hv : v < 64) (hw : w < 64) (spare : w % 16 = 0) :
    Canonical [symbol v, symbol w, '=', '=']
  | triple {v w x : Nat} (hv : v < 64) (hw : w < 64) (hx : x < 64) (spare : x % 4 = 0) :
    Canonical [symbol v, symbol w, symbol x, '=']
  | quad {v w x y : Nat} {rest : List Char} (hv : v < 64) (hw : w < 64) (hx : x < 64) (hy : y < 64)
    (h : Canonical rest) : Canonical (symbol v :: symbol w :: symbol x :: symbol y :: rest)

/-- Every encoding has this form: the bits that belong to no byte are zero. -/
theorem canonical_encodeChars (bytes : List UInt8) : Canonical (encodeChars bytes) := by
  induction bytes using encodeChars.induct with
  | case1 => exact .nil
  | case2 a =>
    have ha := a.toNat_lt
    exact .pair (by omega) (by omega) (by omega)
  | case3 a b =>
    have ha := a.toNat_lt
    have hb := b.toNat_lt
    exact .triple (by omega) (by omega) (by omega) (by omega)
  | case4 a b c rest ih =>
    have ha := a.toNat_lt
    have hb := b.toNat_lt
    have hc := c.toNat_lt
    exact .quad (by omega) (by omega) (by omega) (by omega) ih

/-- Every text of this form is an encoding: the bytes are read off quad by quad. -/
theorem exists_encodeChars {text : List Char} (h : Canonical text) :
    ∃ bytes, encodeChars bytes = text := by
  induction h with
  | nil => exact ⟨[], rfl⟩
  | pair hv hw spare =>
    obtain ⟨hfst, hsnd⟩ := (pair_iff hv hw).2 ⟨rfl, spare⟩
    exact ⟨[_], by rw [encodeChars, hfst, hsnd]⟩
  | triple hv hw hx spare =>
    obtain ⟨hfst, hsnd, hthd⟩ := (triple_iff hv hw hx).2 ⟨rfl, rfl, spare⟩
    exact ⟨[_, _], by rw [encodeChars, hfst, hsnd, hthd]⟩
  | quad hv hw hx hy _ ih =>
    obtain ⟨bytes, hbytes⟩ := ih
    obtain ⟨hfst, hsnd, hthd, hfth⟩ := (quad_iff hv hw hx hy).2 ⟨rfl, rfl, rfl⟩
    exact ⟨_ :: _ :: _ :: bytes, by rw [encodeChars, hfst, hsnd, hthd, hfth, hbytes]⟩

/-- **The canonical texts** are the encodings, and so the texts that can be decoded. -/
theorem canonical_iff {text : String} : Canonical text.toList ↔ ∃ bytes, text = encode bytes := by
  constructor
  · intro h
    obtain ⟨bytes, hbytes⟩ := exists_encodeChars h
    exact ⟨bytes, by rw [encode, hbytes, String.ofList_toList]⟩
  · rintro ⟨bytes, rfl⟩
    rw [encode, String.toList_ofList]
    exact canonical_encodeChars bytes

end TableQuery.Base64
