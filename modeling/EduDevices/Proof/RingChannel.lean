import EduDevices.Proof.RegisterHalves
import EduDevices.Proof.RingDriver

namespace EduDevices

open Refinement Areas RingDmaDevice

/-- What the ring is for its driver: it delivers the messages of a batch, and moves on. -/
def deliver (head : Fin 16) (messages : List (List Byte)) : BatchReport × Fin 16 :=
  let next := head + Fin.ofNat 16 messages.length
  (⟨true, BitVec.ofNat 32 next, messages.map fun message => ⟨descStatusComplete, true, message⟩⟩,
    next)

/-- A batch leaves a slot of the ring free, and each message has a page. -/
def Deliverable (messages : List (List Byte)) : Prop :=
  messages ≠ [] ∧ messages.length < 16 ∧ ∀ message ∈ messages, message.length ≤ 4096

instance : DecidablePred Deliverable := fun _ => inferInstanceAs (Decidable (_ ∧ _))

/-- The ring is empty at the head, and the host has seen all its interrupts. -/
structure Connected (dev : RingDmaDevice) (head : Fin 16) : Prop where
  configured : Configured dev.device
  enabled : dev.device.ringEnabled ≠ 0
  head : dev.device.ringHead = BitVec.ofNat 32 head
  level : dev.device.ringTail = dev.device.ringHead
  vector : dev.events.vector = 1
  drained : dev.events.Drained dev.guest

namespace RingDmaDevice

theorem read32_head (dev : RingDmaDevice) :
    dev.read32 eduRingRead regRingHead = dev.device.ringHead := by
  show (dev.device.ringHead.setWidth 64).setWidth 32 = _
  simp

/-- The host finds what was delivered. -/
theorem checkBatch_delivered (dev : RingDmaDevice) {messages : List (List Byte)}
    {startIdx : BitVec 32} {first : Nat} (agree : startIdx.toNat % 16 = first % 16)
    (delivered : Along 16 Delivered dev.guest.memory first messages) :
    checkBatch dev startIdx messages =
      messages.map fun message => ⟨descStatusComplete, true, message⟩ := by
  induction messages generalizing startIdx first with
  | nil => rfl
  | cons message rest ih =>
      obtain ⟨here, behind⟩ := delivered
      rw [checkBatch, ih (slot_next agree) behind, slot_startIdx, agree, List.map_cons, checkSlot,
        here.status, here.src, here.dst, decide_eq_true rfl]

/-- The registers of a ring that was just set up. -/
def ringUp (s : EduPciState) (ringAddr : Address) : EduPciState :=
  { s with
    ringAddr := ringAddr
    ringSize := 16
    ringHead := 0
    ringTail := 0
    ringEnabled := 1 }

def setUp (dev : RingDmaDevice) : RingDmaDevice :=
  { dev.memcpy ringIova (List.replicate pageSize 0) with device := ringUp dev.device ringIova }

/-- The driver takes the ring over in any state of its registers. -/
theorem setupRing_eq (dma : Dma DmaDescriptor) (dev : RingDmaDevice) :
    setupRing dma dev = .ok (setUp dev) := by
  have halves := withHigh_withLow dev.device.ringAddr ringIova
  have registers : ringUp dev.device ringIova = ringUp dev.device (withHigh (withLow
      dev.device.ringAddr ((lowHalf ringIova).setWidth 64)) ((highHalf ringIova).setWidth 64)) := by
    rw [halves]
  rw [setUp, registers]
  rfl

theorem connected_setUp {dev : RingDmaDevice} (notifies : dev.device.parentObj.msixEnabled = true)
    (vector : dev.events.vector = 1) (drained : dev.events.Drained dev.guest) :
    Connected (setUp dev) 0 :=
  ⟨⟨rfl, rfl, notifies⟩, (by decide : (1 : BitVec 32) ≠ 0), rfl, rfl, vector, drained⟩

end RingDmaDevice

section Batch

variable {dma : Dma DmaDescriptor} {dev : RingDmaDevice} {head : Fin 16}

/-- The doorbell of a loaded batch makes the device deliver it. -/
theorem Connected.rings (connected : Connected dev head) (ring : Mapped dma ringIova pageSize)
    (data : Mapped dma RingDmaDevice.dataIova (pageSize * 16 * 2)) {messages : List (List Byte)}
    (deliverable : Deliverable messages) :
    let next := head + Fin.ofNat 16 messages.length
    let startIdx := BitVec.ofNat 32 head
    let filled := fillBatch dev startIdx messages
    ∃ guest later, writeReg dma filled regRingTail
        ((startIdx + BitVec.ofNat 32 messages.length) % numDescriptors) =
          .ok ⟨(dev.device.withTail (BitVec.ofNat 32 next)).withHead (BitVec.ofNat 32 next), guest,
            dev.events⟩ ∧
      guest.trace = dev.guest.trace ++ later ∧ .msixNotify 1 ∈ later ∧
      Along 16 Delivered guest.memory head messages := by
  intro next startIdx filled
  obtain ⟨some, few, fits⟩ := deliverable
  let s := dev.device
  let val := (startIdx + BitVec.ofNat 32 messages.length) % numDescriptors
  let rung := s.withTail ((val.setWidth 64 % s.ringSize.setWidth 64).setWidth 32)
  have size : s.ringSize = 16 := connected.configured.ringSize
  have sized : s.ringSize ≠ 0 := by
    rw [size]
    decide
  have start : startIdx.toNat = head := by
    rw [BitVec.toNat_ofNat]
    omega
  have slot : s.ringHead.toNat = head % 16 := by
    rw [connected.head, start, Nat.mod_eq_of_lt head.isLt]
  have reached : rung.ringTail.toNat = (head + messages.length) % 16 := by
    show ((val.setWidth 64 % s.ringSize.setWidth 64).setWidth 32).toNat = _
    rw [size, toNat_rung, BitVec.toNat_umod, BitVec.toNat_add, start, BitVec.toNat_ofNat]
    show (head + messages.length % 2 ^ 32) % 2 ^ 32 % 16 % 16 = _
    omega
  have tail : rung.ringTail = BitVec.ofNat 32 next := by
    apply BitVec.eq_of_toNat_eq
    rw [reached, BitVec.toNat_ofNat, Fin.val_add, Fin.val_ofNat]
    omega
  have loaded := loaded_fillBatch dev fits
    (show startIdx.toNat % 16 = (head : Nat) % 16 by rw [start]) few.le
  obtain ⟨guest, later, looped, grown, delivered, -, raised⟩ := @ringLoop_delivers dma ring data
    messages rung filled.guest head 16 ⟨connected.configured.ringAddr, size,
      connected.configured.notifies⟩ few.le few slot reached loaded
  refine ⟨guest, later, ?_, ?_, raised some, delivered⟩
  · have answers : ringAccess dma (filled.device, filled.guest) ⟨id, regRingTail, val⟩ =
        .ok (rung.withHead rung.ringTail, guest) := by
      rw [fillBatch_device]
      show eduRingWrite dma s filled.guest regRingTail (val.setWidth 64) = _
      rw [eduRingWrite_tail _ sized]
      have works : ¬ (rung.ringEnabled = 0 ∨ rung.ringSize = 0) :=
        not_or.mpr ⟨connected.enabled, sized⟩
      dsimp only
      rw [if_pos connected.enabled, eduRingProcess, if_neg works]
      show ringLoop dma s.ringSize.toNat rung filled.guest = _
      rw [size]
      exact looped
    have device : rung.withHead rung.ringTail =
        (s.withTail (BitVec.ofNat 32 next)).withHead (BitVec.ofNat 32 next) := by
      show (s.withTail rung.ringTail).withHead rung.ringTail = _
      rw [tail]
    rw [device] at answers
    rw [writeReg, VfioDevice.write32_of_ok (ringAccess dma) filled answers, fillBatch_events]
  · rw [grown, fillBatch_trace]

/-- The driver with its device delivers every batch. -/
theorem ringDriver_refines (ring : Mapped dma ringIova pageSize)
    (data : Mapped dma RingDmaDevice.dataIova (pageSize * 16 * 2)) :
    Refines Connected (fun _ messages => Deliverable messages) (batchDescriptors dma) deliver := by
  intro dev head messages connected deliverable
  obtain ⟨guest, later, rung, grown, notified, delivered⟩ := connected.rings ring data deliverable
  let next := head + Fin.ofNat 16 messages.length
  let device := (dev.device.withTail (BitVec.ofNat 32 next)).withHead (BitVec.ofNat 32 next)
  let final : RingDmaDevice := ⟨device, guest, { dev.events with seen := guest.trace.length }⟩
  have raised : dev.events.wait guest = (true, final.events) :=
    connected.drained.arrives grown (by rwa [connected.vector])
  have checked : checkBatch final (BitVec.ofNat 32 head) messages =
      messages.map fun message => ⟨descStatusComplete, true, message⟩ :=
    checkBatch_delivered final (by rw [BitVec.toNat_ofNat]; omega) delivered
  refine ⟨final, ?_, ?_⟩
  · rw [batchDescriptors, read32_head, connected.head]
    dsimp only
    rw [rung, ok_bind, VfioDevice.waitInterrupt_of_wait raised]
    dsimp only
    rw [read32_head, checked]
    rfl
  · exact ⟨⟨connected.configured.ringAddr, connected.configured.ringSize,
      connected.configured.notifies⟩, connected.enabled, rfl, rfl, connected.vector,
      EventFd.drained_read _ _⟩

end Batch

/-- A driver that sets the ring up and sends any batches that fit gets every message of them
delivered, in whatever state the ring was before. -/
theorem ringDriver_delivers (dma : Dma DmaDescriptor) (ring : Mapped dma ringIova pageSize)
    (data : Mapped dma RingDmaDevice.dataIova (pageSize * 16 * 2)) (dev : RingDmaDevice)
    (notifies : dev.device.parentObj.msixEnabled = true) (vector : dev.events.vector = 1)
    (drained : dev.events.Drained dev.guest) (batches : List (List (List Byte)))
    (deliverable : ∀ messages ∈ batches, Deliverable messages) :
    ∃ ready final, setupRing dma dev = .ok ready ∧
      serve (batchDescriptors dma) ready batches = .ok ((perform deliver 0 batches).1, final) ∧
      Connected final (perform deliver 0 batches).2 := by
  obtain ⟨final, served, last⟩ := (ringDriver_refines ring data).serve
    (connected_setUp notifies vector drained)
    (Guarded.of_forall (fun messages member _ => deliverable messages member) 0)
  exact ⟨setUp dev, final, setupRing_eq dma dev, served, last⟩

/-- The second batch goes round the end of the ring. -/
theorem ringDriver_delivers_twice :
    let dma : Dma DmaDescriptor := DmaPattern.reliable.dma fun _ _ => 0
    let dev : RingDmaDevice := ⟨.zeroed ⟨true⟩, ⟨fun _ => 0, []⟩, ⟨1, 0⟩⟩
    let batches : List (List (List Byte)) :=
      [List.replicate 10 [1, 2, 3], List.replicate 15 [4], [[], [5, 6]]]
    ∃ ready final, setupRing dma dev = .ok ready ∧
      serve (batchDescriptors dma) ready batches = .ok ((perform deliver 0 batches).1, final) ∧
      Connected final (perform deliver 0 batches).2 := by
  intro dma dev batches
  exact ringDriver_delivers dma (mapped_reliable _ _ _) (mapped_reliable _ _ _) dev rfl rfl
    (EventFd.drained_read 1 dev.guest) batches (by decide)

end EduDevices
