import EduDevices.Construction.UsbSerial

namespace EduDevices

open CString Execution

/-- The state that a payload leaves. -/
def USBEduSerialState.replied (s : USBEduSerialState) (payload : List Byte) : USBEduSerialState :=
  let reply := snprintf s.rxBuf (replyText (s.counter + 1) payload)
  { counter := s.counter + 1, rxBuf := reply.1, rxLen := reply.2 }

/-- A local buffer is written up to its NUL and the reply is stored. -/
def outAccesses (s : USBEduSerialState) (payload : List Byte) : List SerialAccess :=
  (List.range payload.length).map .bufWrite ++
    [.bufWrite payload.length, .rxStore (terminated 64 (replyText (s.counter + 1) payload)).length]

section Accesses

variable {s : USBEduSerialState} {payload : List Byte} {index count : Nat}

theorem bufWrite_mem_outAccesses :
    .bufWrite index ∈ outAccesses s payload ↔ index ≤ payload.length := by
  simp only [outAccesses, List.mem_append, List.mem_map, List.mem_range, List.mem_cons,
    SerialAccess.bufWrite.injEq, exists_eq_right, reduceCtorEq, List.not_mem_nil, or_false]
  exact Nat.le_iff_lt_or_eq.symm

theorem rxStore_mem_outAccesses : .rxStore count ∈ outAccesses s payload ↔
    count = min 63 (replyText (s.counter + 1) payload).length + 1 := by
  simp [outAccesses, length_terminated]

theorem rxRead_notMem_outAccesses : .rxRead index ∉ outAccesses s payload := by
  simp [outAccesses]

end Accesses

theorem replyText_terminated (counter : BitVec 32) (payload : List Byte) :
    replyText counter (payload ++ [0]) = replyText counter payload := by
  rw [replyText, replyText, characters_terminated]

theorem length_replyText (counter : BitVec 32) (payload : List Byte) :
    (replyText counter payload).length =
      3 + (signedDecimal counter.toInt).length + (characters payload).length := by
  simp only [replyText, List.length_append, List.length_cons, List.length_nil]
  omega

section Packets

variable (beyond : Beyond) {s : USBEduSerialState} {p : USBPacket}

theorem usbEduSerialHandleData_out (ep : p.ep = 3) : usbEduSerialHandleData beyond s p =
    ⟨s.replied p.iov, .success, [], outAccesses s p.iov⟩ := by
  simp only [usbEduSerialHandleData, ep, replyText_terminated]
  rfl

theorem usbEduSerialHandleData_in (ep : p.ep = 2) (filled : 0 < s.rxLen) :
    usbEduSerialHandleData beyond s p =
      ⟨{ s with rxLen := 0 }, .success,
        (List.range (min s.rxLen p.iov.length)).map (s.rxByte beyond),
        (List.range (min s.rxLen p.iov.length)).map .rxRead⟩ := by
  have len : (if s.rxLen > p.iov.length then p.iov.length else s.rxLen) =
      min s.rxLen p.iov.length := by
    split
    · omega
    · omega
  simp only [usbEduSerialHandleData, ep, if_pos filled, len]

theorem usbEduSerialHandleData_empty (ep : p.ep = 2) (empty : s.rxLen = 0) :
    usbEduSerialHandleData beyond s p = ⟨s, .nak, [], []⟩ := by
  simp only [usbEduSerialHandleData, ep, empty, Nat.lt_irrefl, if_false]

/-- A packet stores a reply, sends one, or leaves the device alone. -/
theorem usbEduSerialHandleData_cases (beyond : Beyond) (s : USBEduSerialState) (p : USBPacket) :
    (p.ep = 3 ∧ usbEduSerialHandleData beyond s p =
      ⟨s.replied p.iov, .success, [], outAccesses s p.iov⟩) ∨
    (p.ep = 2 ∧ 0 < s.rxLen ∧ usbEduSerialHandleData beyond s p =
      ⟨{ s with rxLen := 0 }, .success,
        (List.range (min s.rxLen p.iov.length)).map (s.rxByte beyond),
        (List.range (min s.rxLen p.iov.length)).map .rxRead⟩) ∨
    (p.ep ≠ 3 ∧ ∃ status, usbEduSerialHandleData beyond s p = ⟨s, status, [], []⟩) := by
  by_cases out : p.ep = 3
  · exact .inl ⟨out, usbEduSerialHandleData_out beyond out⟩
  · right
    by_cases bulkIn : p.ep = 2
    · rcases Nat.eq_zero_or_pos s.rxLen with empty | filled
      · exact .inr ⟨out, .nak, usbEduSerialHandleData_empty beyond bulkIn empty⟩
      · exact .inl ⟨bulkIn, filled, usbEduSerialHandleData_in beyond bulkIn filled⟩
    · right
      by_cases interrupt : p.ep = 1
      · exact ⟨out, .nak, by simp only [usbEduSerialHandleData, interrupt]⟩
      · exact ⟨out, .stall, by unfold usbEduSerialHandleData; split <;> first | contradiction | rfl⟩

end Packets

section Stored

/-- Only a format call changes how many bytes were stored. -/
def SerialAccess.stored (stored : Nat) : SerialAccess → Nat
  | .rxStore count => count
  | _ => stored

/-- The last format call stored this many bytes in the reply buffer. -/
def rxStored (trace : List SerialAccess) : Nat := trace.foldl SerialAccess.stored 0

variable (trace : List SerialAccess)

theorem rxStored_out (s : USBEduSerialState) (payload : List Byte) :
    rxStored (trace ++ outAccesses s payload) =
      min 63 (replyText (s.counter + 1) payload).length + 1 := by
  rw [rxStored, outAccesses, ← List.append_assoc, List.foldl_append, ← length_terminated 64]
  rfl

theorem rxStored_le (inside : ∀ count, .rxStore count ∈ trace → count ≤ 64) :
    rxStored trace ≤ 64 := by
  induction trace using List.reverseRecOn with
  | nil => exact Nat.zero_le 64
  | append_singleton trace access ih =>
      have before : rxStored trace ≤ 64 :=
        ih fun count mem => inside count (List.mem_append_left _ mem)
      rw [rxStored, List.foldl_append]
      cases access with
      | bufWrite index => exact before
      | rxStore count => exact inside count (List.mem_append_right _ (List.mem_singleton_self _))
      | rxRead index => exact before

end Stored

/-- Every byte that was written to the local buffer, stored in the reply buffer or read from it is
inside its buffer, and the length counts no byte that the last reply did not store. -/
structure SerialInBounds (machine : SerialMachine) : Prop where
  written : ∀ index, .bufWrite index ∈ machine.2 → index < 64
  stored : ∀ count, .rxStore count ∈ machine.2 → count ≤ 64
  length : machine.1.rxLen ≤ rxStored machine.2
  read : ∀ index, .rxRead index ∈ machine.2 → index < 64

/-- A bulk OUT packet leaves room for a NUL in the local buffer, and its reply, whose brackets and
space take three bytes, is no longer than the reply buffer. -/
def PacketFits (machine : SerialMachine) : SerialInput → Prop
  | .reset => True
  | .packet p => p.ep = 3 → p.iov.length < 64 ∧
      3 + (signedDecimal (machine.1.counter + 1).toInt).length + (characters p.iov).length ≤ 64

section Bounds

variable {s : USBEduSerialState} {trace : List SerialAccess}

theorem serialInBounds_powerOn : SerialInBounds (.powerOn, []) where
  written _ mem := absurd mem List.not_mem_nil
  stored _ mem := absurd mem List.not_mem_nil
  length := Nat.le_refl 0
  read _ mem := absurd mem List.not_mem_nil

theorem SerialInBounds.reset (bounds : SerialInBounds (s, trace)) :
    SerialInBounds (usbEduSerialReset s, trace) where
  written := bounds.written
  stored := bounds.stored
  length := Nat.zero_le _
  read := bounds.read

/-- The copy of a reply reads what is stored, and the device then has nothing left to send. -/
theorem SerialInBounds.reading (bounds : SerialInBounds (s, trace)) (size : Nat) :
    SerialInBounds ({ s with rxLen := 0 },
      trace ++ (List.range (min s.rxLen size)).map .rxRead) where
  written index mem := by
    apply bounds.written index
    simpa using mem
  stored count mem := by
    apply bounds.stored count
    simpa using mem
  length := Nat.zero_le _
  read index mem := by
    rcases List.mem_append.mp mem with earlier | reads
    · exact bounds.read index earlier
    · have below : index < min s.rxLen size := by simpa using reads
      calc
        index < min s.rxLen size := below
        _ ≤ s.rxLen := Nat.min_le_left _ _
        _ ≤ rxStored trace := bounds.length
        _ ≤ 64 := rxStored_le trace bounds.stored

/-- A payload keeps the bounds exactly when it and its reply fit. -/
theorem SerialInBounds.replied_iff (bounds : SerialInBounds (s, trace)) (payload : List Byte) :
    SerialInBounds (s.replied payload, trace ++ outAccesses s payload) ↔
      payload.length < 64 ∧ 3 + (signedDecimal (s.counter + 1).toInt).length +
        (characters payload).length ≤ 64 := by
  rw [← length_replyText]
  constructor
  · intro after
    have length := after.length
    rw [rxStored_out] at length
    have replied : (replyText (s.counter + 1) payload).length ≤
        min 63 (replyText (s.counter + 1) payload).length + 1 := length
    constructor
    · exact after.written payload.length
        (List.mem_append_right _ (bufWrite_mem_outAccesses.mpr le_rfl))
    · omega
  · intro ⟨room, fits⟩
    exact {
      written := fun index mem => by
        rcases List.mem_append.mp mem with earlier | writes
        · exact bounds.written index earlier
        · exact lt_of_le_of_lt (bufWrite_mem_outAccesses.mp writes) room
      stored := fun count mem => by
        rcases List.mem_append.mp mem with earlier | stores
        · exact bounds.stored count earlier
        · have stored := rxStore_mem_outAccesses.mp stores
          omega
      length := by
        rw [rxStored_out]
        change (replyText (s.counter + 1) payload).length ≤ _
        omega
      read := fun index mem => by
        rcases List.mem_append.mp mem with earlier | reads
        · exact bounds.read index earlier
        · exact absurd reads rxRead_notMem_outAccesses }

/-- A step from a state within bounds stays within them exactly when its packet fits. -/
theorem usbEduSerialStep_inBounds_iff (beyond : Beyond) {machine next : SerialMachine}
    {input : SerialInput} (bounds : SerialInBounds machine)
    (taken : usbEduSerialStep beyond machine input = .ok next) :
    SerialInBounds next ↔ PacketFits machine input := by
  obtain ⟨s, trace⟩ := machine
  cases input with
  | reset =>
      obtain rfl := Except.ok.inj taken
      exact iff_of_true bounds.reset trivial
  | packet p =>
      obtain rfl := Except.ok.inj taken
      obtain ⟨out, outcome⟩ | ⟨bulkIn, -, outcome⟩ | ⟨other, status, outcome⟩ :=
        usbEduSerialHandleData_cases beyond s p
      · simp only [outcome, PacketFits, out, forall_const]
        exact bounds.replied_iff p.iov
      · simp only [outcome]
        exact iff_of_true (bounds.reading p.iov.length) fun out => absurd (bulkIn.symm.trans out) (by decide)
      · simp only [outcome, List.append_nil]
        exact iff_of_true bounds fun out => absurd out other

/-- A legal run keeps to its buffers. -/
theorem Legal.serialInBounds (beyond : Beyond) {inputs : List SerialInput}
    (legal : Legal PacketFits (usbEduSerialStep beyond) (.powerOn, []) inputs) :
    Always SerialInBounds (usbEduSerialStep beyond) (.powerOn, []) inputs := by
  apply Legal.always _ serialInBounds_powerOn legal
  intro machine input next bounds fits taken
  exact (usbEduSerialStep_inBounds_iff beyond bounds taken).mpr fits

/-- The counter takes at most eleven characters. -/
theorem length_signedDecimal_counter (counter : BitVec 32) :
    (signedDecimal counter.toInt).length ≤ 11 := by
  apply length_signedDecimal_le (by decide)
  have low := BitVec.le_toInt counter
  have high := BitVec.toInt_lt (x := counter)
  omega

/-- Fifty bytes always fit, whatever the counter is. -/
theorem packetFits_of_short (machine : SerialMachine) {p : USBPacket} (short : p.iov.length ≤ 50) :
    PacketFits machine (.packet p) := by
  intro _
  have digits := length_signedDecimal_counter (machine.1.counter + 1)
  have text := length_characters_le p.iov
  constructor
  · omega
  · omega

/-- A run whose bulk OUT packets have at most fifty bytes keeps to its buffers. -/
theorem serialRun_short (beyond : Beyond) {inputs : List SerialInput}
    (short : ∀ p, .packet p ∈ inputs → p.ep = 3 → p.iov.length ≤ 50) :
    Always SerialInBounds (usbEduSerialStep beyond) (.powerOn, []) inputs := by
  apply Legal.serialInBounds
  apply Legal.of_forall
  intro input mem machine
  cases input with
  | reset => trivial
  | packet p => exact fun out => packetFits_of_short machine (short p mem out) out

end Bounds

/-- A run keeps to its buffers exactly when every bulk OUT packet that it takes fits. -/
theorem serialRun_inBounds_iff (beyond : Beyond) (inputs : List SerialInput) :
    Always SerialInBounds (usbEduSerialStep beyond) (.powerOn, []) inputs ↔
      Legal PacketFits (usbEduSerialStep beyond) (.powerOn, []) inputs := by
  constructor
  · apply Always.legal
    intro machine input bounds after
    cases taken : usbEduSerialStep beyond machine input with
    | error fault => exact fault.elim
    | ok next => exact (usbEduSerialStep_inBounds_iff beyond bounds taken).mp (after next taken)
  · exact Legal.serialInBounds beyond

/-- The NUL behind the largest packet of the endpoint is written past the end of the buffer. -/
theorem serialRun_overflows : ¬ Always SerialInBounds (usbEduSerialStep fun _ _ => 0) (.powerOn, [])
    [.packet ⟨3, List.replicate 64 0x61⟩] := by
  intro always
  have written : .bufWrite 64 ∈ outAccesses .powerOn (List.replicate 64 0x61) :=
    bufWrite_mem_outAccesses.mpr (by decide)
  exact absurd ((always.2 _ rfl).start.written 64 written) (by decide)

end EduDevices
