import EduDevices.Proof.SerialBounds

namespace EduDevices

open CString

def bulkIn (size : Nat) : USBPacket := ⟨2, List.replicate size 0⟩

def bulkOut (payload : List Byte) : USBPacket := ⟨3, payload⟩

/-- The host gathers the bytes of bulk IN packets of these sizes until one gets NAK. -/
def gathered (beyond : Beyond) : USBEduSerialState → List Nat → Option (List Byte)
  | _, [] => none
  | s, size :: rest =>
      let outcome := usbEduSerialHandleData beyond s (bulkIn size)
      if outcome.status = .nak then some []
      else (gathered beyond outcome.state rest).map (outcome.data ++ ·)

/-- The whole reply has the counter as a number without a sign and every byte of the payload. -/
def echo (counter : BitVec 32) (payload : List Byte) : List Byte :=
  ofChar '[' :: unsignedDecimal counter.toNat ++ [ofChar ']', ofChar ' '] ++ payload

/-- What the host gathers after a payload, if it reads until a NAK, is the whole reply. -/
def EchoesWhole (beyond : Beyond) (s : USBEduSerialState) (payload : List Byte)
    (sizes : List Nat) : Prop :=
  ∀ bytes, gathered beyond (usbEduSerialHandleData beyond s (bulkOut payload)).state sizes =
    some bytes → bytes = echo (s.counter + 1) payload

section Text

variable {counter : BitVec 32} {payload : List Byte}

theorem length_echo (counter : BitVec 32) (payload : List Byte) : (echo counter payload).length =
    3 + (unsignedDecimal counter.toNat).length + payload.length := by
  simp only [echo, List.length_append, List.length_cons, List.length_nil]
  omega

theorem length_replyText_ge (counter : BitVec 32) (payload : List Byte) :
    4 ≤ (replyText counter payload).length := by
  have digits := List.length_pos_of_ne_nil (signedDecimal_ne_nil counter.toInt)
  rw [length_replyText]
  omega

theorem signedDecimal_of_lt (small : counter.toNat < 2 ^ 31) :
    signedDecimal counter.toInt = unsignedDecimal counter.toNat := by
  rw [BitVec.toInt_eq_toNat_of_lt (by omega)]
  rfl

/-- The format gives the whole reply when it has no sign and no NUL to stop at. -/
theorem replyText_eq_echo (small : counter.toNat < 2 ^ 31) (whole : (0 : Byte) ∉ payload) :
    replyText counter payload = echo counter payload := by
  rw [replyText, echo, signedDecimal_of_lt small, (characters_eq_self_iff payload).mpr whole]

theorem getElem?_one_replyText (counter : BitVec 32) (payload : List Byte) :
    (replyText counter payload)[1]? = (signedDecimal counter.toInt)[0]? := by
  rw [replyText]
  cases digits : signedDecimal counter.toInt with
  | nil => exact absurd digits (signedDecimal_ne_nil _)
  | cons digit rest => rfl

theorem getElem?_one_echo (counter : BitVec 32) (payload : List Byte) :
    (echo counter payload)[1]? = (unsignedDecimal counter.toNat)[0]? := by
  rw [echo]
  cases digits : unsignedDecimal counter.toNat with
  | nil => exact absurd digits (unsignedDecimal_ne_nil _)
  | cons digit rest => rfl

/-- A counter with its top bit set is printed with a sign. -/
theorem small_of_getElem?_one
    (same : (replyText counter payload)[1]? = (echo counter payload)[1]?) :
    counter.toNat < 2 ^ 31 := by
  by_contra large
  have negative : counter.toInt < 0 := by
    rw [BitVec.toInt_eq_toNat_bmod, Int.bmod_def]
    omega
  rw [getElem?_one_replyText, getElem?_one_echo, head_signedDecimal_of_neg negative] at same
  exact head_unsignedDecimal_ne_minus _ same.symm

theorem zero_notMem_echo (counter : BitVec 32) (whole : (0 : Byte) ∉ payload) :
    (0 : Byte) ∉ echo counter payload := by
  intro mem
  have digits := zero_notMem_unsignedDecimal counter.toNat
  simp only [echo, List.cons_append, List.mem_cons, List.mem_append, List.not_mem_nil, or_false]
    at mem
  rcases mem with bracket | (inDigits | bracket | space) | inPayload
  · exact absurd bracket (by decide)
  · exact digits inDigits
  · exact absurd bracket (by decide)
  · exact absurd space (by decide)
  · exact whole inPayload

end Text

section Reply

variable (beyond : Beyond) (s : USBEduSerialState) (payload : List Byte)

theorem rxByte_text {index : Nat} (inside : index < (replyText (s.counter + 1) payload).length)
    (room : index < 63) :
    (s.replied payload).rxByte beyond index = (replyText (s.counter + 1) payload)[index] := by
  rw [USBEduSerialState.rxByte, dif_pos (by omega)]
  exact getElem_snprintf_text s.rxBuf _ inside (by omega)

/-- A reply that does not fit leaves a NUL in the last byte of the buffer. -/
theorem rxByte_nul (long : 64 ≤ (replyText (s.counter + 1) payload).length) :
    (s.replied payload).rxByte beyond 63 = 0 := by
  rw [USBEduSerialState.rxByte, dif_pos (by decide)]
  exact getElem_snprintf_nul s.rxBuf _ (by decide) (by omega)

variable {s}

theorem gathered_filled (filled : 0 < s.rxLen) (size : Nat) (rest : List Nat) :
    gathered beyond s (size :: rest) = (gathered beyond { s with rxLen := 0 } rest).map
      ((List.range (min s.rxLen size)).map (s.rxByte beyond) ++ ·) := by
  have length : (bulkIn size).iov.length = size := List.length_replicate
  have first : usbEduSerialHandleData beyond s (bulkIn size) = _ :=
    usbEduSerialHandleData_in beyond rfl filled
  rw [length] at first
  rw [gathered, first]
  rfl

theorem gathered_empty (empty : s.rxLen = 0) (size : Nat) (rest : List Nat) :
    gathered beyond s (size :: rest) = some [] := by
  have first : usbEduSerialHandleData beyond s (bulkIn size) = _ :=
    usbEduSerialHandleData_empty beyond rfl empty
  rw [gathered, first]
  rfl

variable (s)

/-- The first packet gets as much of the reply as it has room for, and the second gets NAK. -/
theorem gathered_replied (size second : Nat) (rest : List Nat) :
    gathered beyond (s.replied payload) (size :: second :: rest) =
      some ((List.range (min (replyText (s.counter + 1) payload).length size)).map
        ((s.replied payload).rxByte beyond)) := by
  have filled : 0 < (s.replied payload).rxLen :=
    lt_of_lt_of_le (by decide) (length_replyText_ge (s.counter + 1) payload)
  rw [gathered_filled beyond filled, gathered_empty beyond rfl, Option.map_some, List.append_nil]
  rfl

theorem echoesWhole_iff_replied (sizes : List Nat) : EchoesWhole beyond s payload sizes ↔
    ∀ bytes, gathered beyond (s.replied payload) sizes = some bytes →
      bytes = echo (s.counter + 1) payload := by
  rw [EchoesWhole, usbEduSerialHandleData_out beyond rfl]
  rfl

/-- Fewer than two packets bring no NAK after a payload. -/
theorem gathered_short {sizes : List Nat} (short : sizes.length < 2) :
    gathered beyond (s.replied payload) sizes = none := by
  have filled : 0 < (s.replied payload).rxLen :=
    lt_of_lt_of_le (by decide) (length_replyText_ge (s.counter + 1) payload)
  match sizes with
  | [] => rfl
  | [size] => rw [gathered_filled beyond filled, gathered, Option.map_none]
  | _ :: _ :: rest => exact absurd short (by simp)

/-- A reply that fits in the buffer and in the packet arrives whole. -/
theorem reply_whole {size : Nat} (small : (s.counter + 1).toNat < 2 ^ 31)
    (whole : (0 : Byte) ∉ payload) (fits : (echo (s.counter + 1) payload).length ≤ 63)
    (room : (echo (s.counter + 1) payload).length ≤ size) :
    (List.range (min (replyText (s.counter + 1) payload).length size)).map
      ((s.replied payload).rxByte beyond) = echo (s.counter + 1) payload := by
  have text := replyText_eq_echo small whole
  rw [← text] at fits room ⊢
  rw [Nat.min_eq_left room]
  apply List.ext_getElem
  · rw [List.length_map, List.length_range]
  · intro index _ inside
    rw [List.getElem_map, List.getElem_range]
    exact rxByte_text beyond s payload inside (by omega)

/-- Only a reply that fits in the buffer and in the packet arrives whole. -/
theorem fits_of_reply_whole {size : Nat}
    (arrived : (List.range (min (replyText (s.counter + 1) payload).length size)).map
      ((s.replied payload).rxByte beyond) = echo (s.counter + 1) payload) :
    (0 : Byte) ∉ payload ∧ (s.counter + 1).toNat < 2 ^ 31 ∧
      (echo (s.counter + 1) payload).length ≤ 63 ∧
      (echo (s.counter + 1) payload).length ≤ size := by
  have atLeast := length_replyText_ge (s.counter + 1) payload
  have length : min (replyText (s.counter + 1) payload).length size =
      (echo (s.counter + 1) payload).length := by
    rw [← arrived, List.length_map, List.length_range]
  have digits := List.length_pos_of_ne_nil (unsignedDecimal_ne_nil (s.counter + 1).toNat)
  have expected := length_echo (s.counter + 1) payload
  have byte {index : Nat} (inside : index < (echo (s.counter + 1) payload).length) :
      (s.replied payload).rxByte beyond index = (echo (s.counter + 1) payload)[index] := by
    simp only [← arrived, List.getElem_map, List.getElem_range]
  -- The second byte tells whether the counter has a sign.
  have small : (s.counter + 1).toNat < 2 ^ 31 := by
    have inText : 1 < (replyText (s.counter + 1) payload).length := by omega
    have inEcho : 1 < (echo (s.counter + 1) payload).length := by omega
    apply small_of_getElem?_one
    rw [List.getElem?_eq_getElem inText, List.getElem?_eq_getElem inEcho,
      ← rxByte_text beyond s payload inText (by decide), byte inEcho]
  have whole : (0 : Byte) ∉ payload := by
    apply zero_notMem_of_length_characters
    have text := length_replyText (s.counter + 1) payload
    rw [signedDecimal_of_lt small] at text
    omega
  have text := replyText_eq_echo small whole
  have fits : (echo (s.counter + 1) payload).length ≤ 63 := by
    by_contra long
    have nul := rxByte_nul beyond s payload (by rw [text]; omega)
    rw [byte (by omega)] at nul
    exact zero_notMem_echo _ whole (nul ▸ List.getElem_mem _)
  exact ⟨whole, small, fits, by omega⟩

end Reply

/-- The whole reply arrives exactly when the host stops before a NAK, or when the payload has no NUL,
the counter has no sign, and the reply leaves room for a NUL in the buffer and fits in the first
bulk IN packet. -/
theorem serialEcho_whole_iff (beyond : Beyond) (s : USBEduSerialState) (payload : List Byte)
    (sizes : List Nat) : EchoesWhole beyond s payload sizes ↔ sizes.length < 2 ∨
      (0 : Byte) ∉ payload ∧ (s.counter + 1).toNat < 2 ^ 31 ∧
        (echo (s.counter + 1) payload).length ≤ 63 ∧
        (echo (s.counter + 1) payload).length ≤ sizes.headD 0 := by
  rw [echoesWhole_iff_replied]
  match sizes with
  | [] | [_] =>
      rw [gathered_short beyond s payload (by simp)]
      exact iff_of_true (fun bytes none => nomatch none) (.inl (by simp))
  | size :: second :: rest =>
      rw [gathered_replied]
      constructor
      · intro whole
        exact .inr (fits_of_reply_whole beyond s payload (whole _ rfl))
      · intro condition
        rcases condition with short | ⟨whole, small, fits, room⟩
        · exact absurd short (by simp)
        · intro bytes arrived
          rw [← Option.some.inj arrived]
          exact reply_whole beyond s payload small whole fits room

/-- A host that reads one byte first loses the rest of the reply. -/
theorem serialEcho_cut : ¬ EchoesWhole (fun _ _ => 0) .powerOn [0x61, 0x62] [1, 64] := by
  intro whole
  exact absurd (whole [ofChar '['] (by decide +kernel)) (by decide +kernel)

end EduDevices
