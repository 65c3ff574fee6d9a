import EduDevices.Construction.UsbCounter

namespace EduDevices

open Execution

/-- The word that a bulk OUT packet brings. -/
def CounterInput.word? : CounterInput → Option (BitVec 32)
  | .reset => none
  | .packet p =>
      if p.ep = 2 ∧ p.pid = .tokenOut ∧ 4 ≤ p.iov.length then
        some (fromLittleEndian 32 (p.iov.take 4))
      else none

def CounterInput.isPacket : CounterInput → Bool
  | .reset => false
  | .packet _ => true

/-- The word that the last OUT packet since the last reset brought, or zero when there is none. -/
def lastCounter (inputs : List CounterInput) : BitVec 32 :=
  ((inputs.reverse.takeWhile CounterInput.isPacket).findSome? CounterInput.word?).getD 0

/-- Every bulk IN packet with room for a word returned the last word that came in before it. -/
def ReturnsCounter (records : List CounterRecord) : Prop :=
  ∀ before record after p, records = before ++ record :: after → record.input = .packet p →
    p.ep = 1 → p.pid = .tokenIn → 4 ≤ p.iov.length → record.status = .success ∧
      record.data = littleEndian 4 (lastCounter (before.map CounterRecord.input))

/-- The packets that the device copies from or to. -/
def USBDataPacket.Carries (p : USBDataPacket) : Prop :=
  (p.ep = 1 ∧ p.pid = .tokenIn) ∨ (p.ep = 2 ∧ p.pid = .tokenOut)

def CounterInput.HoldsWord : CounterInput → Prop
  | .reset => True
  | .packet p => p.Carries → 4 ≤ p.iov.length

section Spec

variable (inputs : List CounterInput)

@[simp] theorem lastCounter_nil : lastCounter [] = 0 := rfl

@[simp] theorem lastCounter_reset : lastCounter (inputs ++ [.reset]) = 0 := by
  rw [lastCounter, List.reverse_append]
  rfl

@[simp] theorem lastCounter_packet (p : USBDataPacket) :
    lastCounter (inputs ++ [.packet p]) =
      (CounterInput.word? (.packet p)).getD (lastCounter inputs) := by
  have newest : (inputs ++ [CounterInput.packet p]).reverse.takeWhile CounterInput.isPacket =
      .packet p :: inputs.reverse.takeWhile CounterInput.isPacket := by
    rw [List.reverse_append]
    rfl
  rw [lastCounter, newest, List.findSome?_cons]
  cases CounterInput.word? (.packet p) <;> rfl

theorem returnsCounter_nil : ReturnsCounter [] := by
  intro before record after p split
  exact absurd split (by simp)

/-- A new record has to be right for itself alone. -/
theorem ReturnsCounter.snoc {records : List CounterRecord} {last : CounterRecord}
    (returns : ReturnsCounter records)
    (right : ∀ p, last.input = .packet p → p.ep = 1 → p.pid = .tokenIn → 4 ≤ p.iov.length →
      last.status = .success ∧
        last.data = littleEndian 4 (lastCounter (records.map CounterRecord.input))) :
    ReturnsCounter (records ++ [last]) := by
  intro before record after p split packet ep pid long
  rcases List.eq_nil_or_concat after with rfl | ⟨earlier, newest, rfl⟩
  · obtain ⟨rfl, same⟩ := List.append_inj' split rfl
    obtain rfl := (List.cons.inj same).1
    exact right p packet ep pid long
  · rw [List.concat_eq_append, ← List.cons_append, ← List.append_assoc] at split
    obtain ⟨rfl, -⟩ := List.append_inj' split rfl
    exact returns before record earlier p rfl packet ep pid long

end Spec

section Packet

variable {unset : Vector Byte 64} {s : USBEduState} {p : USBDataPacket}

/-- The bytes of a word, as the handler masks and shifts it. -/
theorem encoded_eq {buf : List Byte} {counter : BitVec 32}
    (masked : ∀ index, index < 4 →
      buf[index]? = some (((counter >>> (8 * index)) &&& (0xFF : BitVec 32)).setWidth 8)) :
    buf.take 4 = littleEndian 4 counter := by
  have low (word : BitVec 32) : (word &&& (0xFF : BitVec 32)).setWidth 8 = word.setWidth 8 := by
    rw [BitVec.setWidth_and]
    exact BitVec.and_allOnes
  apply List.ext_getElem?
  intro index
  rcases Nat.lt_or_ge index 4 with short | beyond
  · rw [List.getElem?_take_of_lt short, masked index short, low]
    simp [littleEndian, short]
  · rw [List.getElem?_eq_none (by simpa using .inl beyond), List.getElem?_eq_none (by simpa using beyond)]

/-- The word of four bytes, as the handler shifts them. -/
theorem decoded_eq (a b c d : Byte) :
    (a.setWidth 32 ||| (b.setWidth 32 <<< 8) ||| (c.setWidth 32 <<< 16) ||| (d.setWidth 32 <<< 24) :
      BitVec 32) = fromLittleEndian 32 [a, b, c, d] := by
  simp only [fromLittleEndian, BitVec.shiftLeft_or_distrib, ← BitVec.shiftLeft_add]
  simp [BitVec.or_assoc]

theorem take_four {bytes : List Byte} (long : 4 ≤ bytes.length) :
    bytes.take 4 = [bytes.getD 0 0, bytes.getD 1 0, bytes.getD 2 0, bytes.getD 3 0] := by
  match bytes, long with
  | _ :: _ :: _ :: _ :: _, _ => rfl

theorem usbPacketCopy_short {buf : Vector Byte 64} {bytes : Nat} (short : p.iov.length < bytes) :
    usbPacketCopy p buf bytes = .error .assertion :=
  if_pos short

theorem usbPacketCopy_in {buf : Vector Byte 64} {bytes : Nat} (pid : p.pid = .tokenIn)
    (long : bytes ≤ p.iov.length) : usbPacketCopy p buf bytes = .ok (buf.toList.take bytes, buf) := by
  rw [usbPacketCopy, if_neg (Nat.not_lt.mpr long), pid]

theorem usbPacketCopy_out {buf : Vector Byte 64} {bytes : Nat} (pid : p.pid = .tokenOut)
    (long : bytes ≤ p.iov.length) : usbPacketCopy p buf bytes =
      .ok ([], Vector.ofFn fun i => if i.val < bytes then p.iov.getD i.val 0 else buf[i.val]) := by
  rw [usbPacketCopy, if_neg (Nat.not_lt.mpr long), pid]

/-- What becomes of a packet, by its endpoint, its direction and its size. -/
inductive Handled (s : USBEduState) (p : USBDataPacket) : Except USBFault CounterOutcome → Prop where
  | short (carries : p.Carries) (short : p.iov.length < 4) : Handled s p (.error .assertion)
  | reading (ep : p.ep = 1) (pid : p.pid = .tokenIn) (long : 4 ≤ p.iov.length) :
      Handled s p (.ok ⟨s, .success, littleEndian 4 s.counter⟩)
  | writing (ep : p.ep = 2) (pid : p.pid = .tokenOut) (long : 4 ≤ p.iov.length) :
      Handled s p (.ok ⟨⟨fromLittleEndian 32 (p.iov.take 4)⟩, .success, []⟩)
  | other (status : USBReturn) (neither : ¬ p.Carries) : Handled s p (.ok ⟨s, status, []⟩)

theorem usbEduHandleData_in (ep : p.ep = 1) (pid : p.pid = .tokenIn) :
    Handled s p (usbEduHandleData unset s p) := by
  unfold usbEduHandleData
  rw [ep]
  dsimp only
  rw [if_pos pid]
  rcases Nat.lt_or_ge p.iov.length 4 with short | long
  · rw [usbPacketCopy_short short]
    exact .short (.inl ⟨ep, pid⟩) short
  · rw [usbPacketCopy_in pid long, @encoded_eq _ s.counter]
    · exact .reading ep pid long
    · intro index short
      interval_cases index <;> simp

theorem usbEduHandleData_out (ep : p.ep = 2) (pid : p.pid = .tokenOut) :
    Handled s p (usbEduHandleData unset s p) := by
  have handler : usbEduHandleData unset s p = (usbPacketCopy p unset 4).bind fun copied =>
      .ok ⟨⟨copied.2[0].setWidth 32 ||| (copied.2[1].setWidth 32 <<< 8) |||
        (copied.2[2].setWidth 32 <<< 16) ||| (copied.2[3].setWidth 32 <<< 24)⟩, .success, []⟩ := by
    unfold usbEduHandleData
    rw [ep]
    exact if_pos pid
  rcases Nat.lt_or_ge p.iov.length 4 with short | long
  · rw [handler, usbPacketCopy_short short]
    exact .short (.inr ⟨ep, pid⟩) short
  · have written := @Handled.writing s p ep pid long
    rw [take_four long, ← decoded_eq] at written
    rw [handler, usbPacketCopy_out pid long]
    simpa [Except.bind] using written

theorem usbEduHandleData_handled (unset : Vector Byte 64) (s : USBEduState) (p : USBDataPacket) :
    Handled s p (usbEduHandleData unset s p) := by
  by_cases bulkIn : p.ep = 1 ∧ p.pid = .tokenIn
  · exact usbEduHandleData_in bulkIn.1 bulkIn.2
  by_cases bulkOut : p.ep = 2 ∧ p.pid = .tokenOut
  · exact usbEduHandleData_out bulkOut.1 bulkOut.2
  have neither : ¬ p.Carries := not_or.mpr ⟨bulkIn, bulkOut⟩
  unfold usbEduHandleData
  split
  · next ep =>
      rw [if_neg fun pid => bulkIn ⟨ep, pid⟩]
      exact .other .success neither
  · next ep =>
      rw [if_neg fun pid => bulkOut ⟨ep, pid⟩]
      exact .other .success neither
  · exact .other .stall neither

end Packet

/-- The counter is the last word that came in, and every answer so far was right. -/
structure KeepsCounter (machine : CounterMachine) : Prop where
  counter : machine.1.counter = lastCounter (machine.2.map CounterRecord.input)
  returns : ReturnsCounter machine.2

section Step

variable {unset : CounterMachine → Vector Byte 64} {machine next : CounterMachine}
  {input : CounterInput}

theorem word?_of_not_out {p : USBDataPacket} (other : ¬ (p.ep = 2 ∧ p.pid = .tokenOut)) :
    CounterInput.word? (.packet p) = none :=
  if_neg fun out => other ⟨out.1, out.2.1⟩

theorem KeepsCounter.reset (keeps : KeepsCounter machine) :
    KeepsCounter (usbEduHandleReset machine.1, machine.2 ++ [⟨.reset, .success, []⟩]) where
  counter := by
    rw [List.map_append]
    exact (lastCounter_reset _).symm
  returns := keeps.returns.snoc fun p packet => nomatch packet

/-- A packet keeps the counter when it leaves its own word there, or none, and answers as it stood. -/
theorem KeepsCounter.packet (keeps : KeepsCounter machine) {p : USBDataPacket}
    {outcome : CounterOutcome}
    (counter : outcome.state.counter = (CounterInput.word? (.packet p)).getD machine.1.counter)
    (right : p.ep = 1 → p.pid = .tokenIn →
      outcome.status = .success ∧ outcome.data = littleEndian 4 machine.1.counter) :
    KeepsCounter (outcome.state, machine.2 ++ [⟨.packet p, outcome.status, outcome.data⟩]) where
  counter := by
    rw [List.map_append, counter, keeps.counter]
    exact (lastCounter_packet _ p).symm
  returns := by
    apply keeps.returns.snoc
    intro same packet ep pid _
    obtain rfl := CounterInput.packet.inj packet
    rw [← keeps.counter]
    exact right ep pid

theorem usbEduStep_packet (p : USBDataPacket) : usbEduStep unset machine (.packet p) =
    (usbEduHandleData (unset machine) machine.1 p).bind fun outcome =>
      .ok (outcome.state, machine.2 ++ [⟨.packet p, outcome.status, outcome.data⟩]) := rfl

/-- A step that is taken had room for its word. -/
theorem usbEduStep_holds (taken : usbEduStep unset machine input = .ok next) : input.HoldsWord := by
  cases input with
  | reset => trivial
  | packet p =>
      have handled := usbEduHandleData_handled (unset machine) machine.1 p
      rw [usbEduStep_packet] at taken
      generalize usbEduHandleData (unset machine) machine.1 p = outcome at handled taken
      cases handled with
      | short carries short => cases taken
      | reading ep pid long => exact fun _ => long
      | writing ep pid long => exact fun _ => long
      | other status neither => exact fun carries => absurd carries neither

/-- An input with room for its word is recorded and keeps the counter. -/
theorem usbEduStep_keeps (keeps : KeepsCounter machine) (holds : input.HoldsWord) :
    ∃ next, usbEduStep unset machine input = .ok next ∧ KeepsCounter next ∧
      next.2.map CounterRecord.input = machine.2.map CounterRecord.input ++ [input] := by
  cases input with
  | reset => exact ⟨_, rfl, keeps.reset, List.map_append⟩
  | packet p =>
      have handled := usbEduHandleData_handled (unset machine) machine.1 p
      rw [usbEduStep_packet]
      generalize usbEduHandleData (unset machine) machine.1 p = outcome at handled
      cases handled with
      | short carries short => exact absurd (holds carries) (Nat.not_le.mpr short)
      | reading ep pid long =>
          have wordless := @word?_of_not_out p fun out => absurd (ep.symm.trans out.1) (by decide)
          refine ⟨_, rfl, keeps.packet ?_ fun _ _ => ⟨rfl, rfl⟩, List.map_append⟩
          rw [wordless]
          rfl
      | writing ep pid long =>
          have word : CounterInput.word? (.packet p) = some (fromLittleEndian 32 (p.iov.take 4)) :=
            if_pos ⟨ep, pid, long⟩
          refine ⟨_, rfl, keeps.packet ?_ fun bulkIn => ?_, List.map_append⟩
          · rw [word]
            rfl
          · exact absurd (ep.symm.trans bulkIn) (by decide)
      | other status neither =>
          have wordless := @word?_of_not_out p fun out => neither (.inr out)
          refine ⟨_, rfl, keeps.packet ?_ fun bulkIn pid => ?_, List.map_append⟩
          · rw [wordless]
            rfl
          · exact absurd (.inl ⟨bulkIn, pid⟩) neither

/-- A run over inputs with room for their words records them all and keeps the counter. -/
theorem usbEduRun_keeps (inputs : List CounterInput) (keeps : KeepsCounter machine)
    (holds : ∀ input ∈ inputs, input.HoldsWord) :
    ∃ final, run (usbEduStep unset) machine inputs = .ok final ∧ KeepsCounter final ∧
      final.2.map CounterRecord.input = machine.2.map CounterRecord.input ++ inputs := by
  induction inputs generalizing machine with
  | nil => exact ⟨machine, rfl, keeps, (List.append_nil _).symm⟩
  | cons input rest ih =>
      obtain ⟨next, taken, kept, recorded⟩ := usbEduStep_keeps keeps (holds input List.mem_cons_self)
      obtain ⟨final, finished, always, records⟩ :=
        ih kept fun later member => holds later (List.mem_cons_of_mem input member)
      refine ⟨final, (run_cons_of_ok rest taken).trans finished, always, ?_⟩
      rw [records, recorded, List.append_assoc]
      rfl

end Step

/-- The run ends without an abort, and each bulk IN packet of it that has room for a word returns the
last word that came in. -/
def RunsRight (unset : CounterMachine → Vector Byte 64) (inputs : List CounterInput) : Prop :=
  ∃ final, run (usbEduStep unset) (.powerOn, []) inputs = .ok final ∧
    final.2.map CounterRecord.input = inputs ∧ ReturnsCounter final.2

/-- A run goes right exactly when every packet that the device copies from or to has room for a
word, since no copy looks at the size of its packet. -/
theorem usbEduCounter_iff (unset : CounterMachine → Vector Byte 64) (inputs : List CounterInput) :
    RunsRight unset inputs ↔ ∀ p, .packet p ∈ inputs → p.Carries → 4 ≤ p.iov.length := by
  constructor
  · intro ⟨final, finished, _, _⟩ p member
    exact run_accepts CounterInput.HoldsWord (fun _ _ _ taken => usbEduStep_holds taken) finished
      (.packet p) member
  · intro long
    have holds : ∀ input ∈ inputs, input.HoldsWord := by
      intro input member
      cases input with
      | reset => trivial
      | packet p => exact long p member
    have start : KeepsCounter (.powerOn, []) := ⟨rfl, returnsCounter_nil⟩
    obtain ⟨final, finished, keeps, records⟩ := usbEduRun_keeps inputs start holds
    exact ⟨final, finished, records, keeps.returns⟩

/-- A bulk IN packet of three bytes is asked for four. -/
theorem usbEduCounter_aborts :
    let inputs : List CounterInput := [.packet ⟨⟨1, [0, 0, 0]⟩, .tokenIn⟩]
    let unset : CounterMachine → Vector Byte 64 := fun _ => Vector.replicate 64 0
    run (usbEduStep unset) (.powerOn, []) inputs = .error .assertion ∧ ¬ RunsRight unset inputs := by
  intro inputs unset
  have aborts : run (usbEduStep unset) (.powerOn, []) inputs = .error .assertion := rfl
  refine ⟨aborts, ?_⟩
  intro ⟨final, finished, _, _⟩
  rw [aborts] at finished
  cases finished

end EduDevices
