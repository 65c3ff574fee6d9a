import EduDevices.Library.Refinement
import EduDevices.Construction.NvmeDriver
import EduDevices.Proof.NvmeStatus
import EduDevices.Proof.NvmeTermination

namespace EduDevices

open Refinement (ok_bind)

section Turn

variable {dma : Dma NvmeMark} {sqSize : BitVec 16} {cmd : List Byte} {s : EduNvmeState}
  {g : Guest NvmeMark}

theorem nvmeAccess_doorbell (tail : BitVec 32) :
    nvmeAccess dma (s, g) ⟨id, nvmeSq0tdbl, tail⟩ =
      sqLoop dma (((s.aqa &&& (0xFFF : BitVec 32)) + 1).setWidth 16) (2 ^ 16 + 1)
        (stackBuffer dma g 64) { s with sqTail := (tail.setWidth 64).setWidth 16 } g := rfl

theorem nvmeAccess_completionDoorbell (head : BitVec 32) :
    nvmeAccess dma (s, g) ⟨id, nvmeCq0hdbl, head⟩ =
      .ok ({ s with cqHead := (head.setWidth 64).setWidth 16 }, g) := rfl

/-- A doorbell for one entry takes one turn. -/
theorem sqLoop_one {turns : Nat} (enough : 1 < turns) (pending : s.sqHead ≠ s.sqTail)
    (met : (sqTurn dma sqSize cmd s g).2.1.sqHead = s.sqTail) :
    sqLoop dma sqSize turns cmd s g = .ok (sqTurn dma sqSize cmd s g).2 := by
  obtain ⟨turns, rfl⟩ := Nat.exists_eq_add_of_lt enough
  have stops : (sqTurn dma sqSize cmd s g).2.1.sqHead = (sqTurn dma sqSize cmd s g).2.1.sqTail :=
    met.trans sqTurn_sqTail.symm
  rw [Nat.add_comm 1, sqLoop, if_pos pending]
  show sqLoop dma sqSize (turns + 1) _ (sqTurn dma sqSize cmd s g).2.1
    (sqTurn dma sqSize cmd s g).2.2 = _
  rw [sqLoop, if_neg (not_not.mpr stops)]

end Turn

/-- The host and the device agree on their queues, and no completion is outstanding. -/
structure NvmeController.Ready (c : NvmeController) : Prop where
  aqa : c.dev.device.aqa = 0x000F000F
  asq : c.dev.device.asq = sqIova
  acq : c.dev.device.acq = cqIova
  notifies : c.dev.device.parentObj.msixEnabled = true
  sqHead : c.dev.device.sqHead = c.sqTail
  cqTail : c.dev.device.cqTail = c.cqHead
  sqInside : c.sqTail.toNat < 16
  cqInside : c.cqHead.toNat < 16
  vector : c.dev.events.vector = 0
  drained : c.dev.events.Drained c.dev.guest

section Slots

theorem toNat_next (index : BitVec 16) :
    ((index + 1) % queueSize).toNat = (index.toNat + 1) % 16 := by
  rw [BitVec.toNat_umod, BitVec.toNat_add]
  show (index.toNat + 1) % 2 ^ 16 % 16 = (index.toNat + 1) % 16
  omega

theorem next_ne (index : BitVec 16) : index ≠ (index + 1) % queueSize := by
  intro same
  have steps := toNat_next index
  rw [← same] at steps
  omega

/-- The slots of the queues lie in their pages. -/
theorem toNat_sqSlot (index : BitVec 16) :
    (sqIova + index.setWidth 64 * 64).toNat = 0x100000 + index.toNat * 64 := by
  bv_omega

theorem toNat_cqSlot (index : BitVec 16) :
    (cqIova + index.setWidth 64 * 16).toNat = 0x101000 + index.toNat * 16 := by
  have page : cqIova = 0x101000 := rfl
  rw [page]
  bv_omega

variable {s : EduNvmeState}

theorem advanceSqHead_next (inside : s.sqHead.toNat < 16) :
    (advanceSqHead queueSize s).sqHead = (s.sqHead + 1) % queueSize := by
  apply BitVec.eq_of_toNat_eq
  rw [toNat_advanceSqHead s queueSize inside, toNat_next]
  rfl

theorem advanceCqTail_next (aqa : s.aqa = 0x000F000F) (inside : s.cqTail.toNat < 16) :
    (advanceCqTail s).cqTail = (s.cqTail + 1) % queueSize := by
  have size : cqSizeOf s.aqa = 16 := by
    rw [aqa]
    decide
  apply BitVec.eq_of_toNat_eq
  rw [toNat_advanceCqTail s (by rwa [size]), size, toNat_next]

end Slots

namespace NvmeController

/-- The command as it is submitted. -/
def sent (c : NvmeController) (cmd : NvmeCmd) : NvmeCmd := { cmd with cid := c.cmdId }

/-- The device when the doorbell has named the next slot. -/
def rung (c : NvmeController) : EduNvmeState :=
  { c.dev.device with sqTail := (c.sqTail + 1) % queueSize }

def sqSlot (c : NvmeController) : Address := sqIova + c.sqTail.setWidth 64 * 64

def cqSlot (c : NvmeController) : Address := cqIova + c.cqHead.setWidth 64 * 16

/-- The guest when the device has fetched the command. -/
def fetched (c : NvmeController) (cmd : NvmeCmd) : Guest NvmeMark :=
  (c.dev.memcpy c.sqSlot (c.sent cmd).encode).guest.log
    (.dmaRead c.sqSlot (c.sent cmd).encode .ok)

/-- What the switch on the opcode makes of the command. -/
def switched (dma : Dma NvmeMark) (c : NvmeController) (cmd : NvmeCmd) :
    BitVec 16 × EduNvmeState × Guest NvmeMark :=
  nvmeTransfer dma c.rung ((c.fetched cmd).log (.mark (.command (c.sent cmd)))) (c.sent cmd)

def processed (dma : Dma NvmeMark) (c : NvmeController) (cmd : NvmeCmd) :
    EduNvmeState × Guest NvmeMark :=
  eduNvmeProcessCmd dma c.rung (c.fetched cmd) (c.sent cmd)

/-- The controller between the submission of a command and the wait for its completion. -/
def submitted (dma : Dma NvmeMark) (c : NvmeController) (cmd : NvmeCmd) : NvmeController where
  dev := { c.dev with
    device := advanceSqHead queueSize (c.processed dma cmd).1
    guest := (c.processed dma cmd).2 }
  sqTail := (c.sqTail + 1) % queueSize
  cqHead := c.cqHead
  cmdId := c.cmdId + 1

/-- The completion that the device posts for the command. -/
def completion (dma : Dma NvmeMark) (c : NvmeController) (cmd : NvmeCmd) : NvmeCqe :=
  c.rung.completionOf (c.sent cmd) (c.switched dma cmd).1

/-- The controller when the host has consumed the completion of the command. -/
def finished (dma : Dma NvmeMark) (c : NvmeController) (cmd : NvmeCmd) : NvmeController where
  dev := {
    device := { (c.submitted dma cmd).dev.device with cqHead := (c.cqHead + 1) % queueSize }
    guest := (c.processed dma cmd).2
    events := { c.dev.events with seen := (c.processed dma cmd).2.trace.length } }
  sqTail := (c.sqTail + 1) % queueSize
  cqHead := (c.cqHead + 1) % queueSize
  cmdId := c.cmdId + 1

theorem processed_eq (dma : Dma NvmeMark) (c : NvmeController) (cmd : NvmeCmd) :
    c.processed dma cmd = (advanceCqTail (c.switched dma cmd).2.1,
      c.rung.complete dma (c.switched dma cmd).2.2 (c.completion dma cmd)) :=
  eduNvmeProcessCmd_eq ..

theorem switched_device (dma : Dma NvmeMark) (c : NvmeController) (cmd : NvmeCmd) :
    ∃ storage, (c.switched dma cmd).2.1 = { c.rung with storage } :=
  nvmeTransfer_device ..

end NvmeController

section Command

variable {dma : Dma NvmeMark} {c : NvmeController} (ready : c.Ready)
  (mapped : Mapped dma dmaIova dmaSize) (cmd : NvmeCmd)

include ready

theorem NvmeController.Ready.sqeAddr : c.rung.sqeAddr = c.sqSlot := by
  show c.dev.device.asq + c.dev.device.sqHead.setWidth 64 * 64 = _
  rw [ready.asq, ready.sqHead]
  rfl

theorem NvmeController.Ready.cqeAddr : c.rung.cqeAddr = c.cqSlot := by
  show c.dev.device.acq + c.dev.device.cqTail.setWidth 64 * 16 = _
  rw [ready.acq, ready.cqTail]
  rfl

theorem NvmeController.Ready.sqSlot_inside : Inside dmaIova dmaSize c.sqSlot 64 := by
  have slot := toNat_sqSlot c.sqTail
  have inside := ready.sqInside
  constructor
  · show 0x100000 ≤ (sqIova + c.sqTail.setWidth 64 * 64).toNat
    omega
  · show (sqIova + c.sqTail.setWidth 64 * 64).toNat + 64 ≤ 0x100000 + 4096 * 4
    omega

theorem NvmeController.Ready.cqSlot_inside : Inside dmaIova dmaSize c.cqSlot 16 := by
  have slot := toNat_cqSlot c.cqHead
  have inside := ready.cqInside
  constructor
  · show 0x100000 ≤ (cqIova + c.cqHead.setWidth 64 * 16).toNat
    omega
  · show (cqIova + c.cqHead.setWidth 64 * 16).toNat + 16 ≤ 0x100000 + 4096 * 4
    omega

theorem NvmeController.Ready.advanced_sqHead (storage : Memory) :
    (advanceSqHead queueSize (advanceCqTail { c.rung with storage })).sqHead =
      (c.sqTail + 1) % queueSize := by
  have head : (advanceCqTail { c.rung with storage }).sqHead = c.sqTail := by
    rw [advanceCqTail_eq]
    exact ready.sqHead
  rw [advanceSqHead_next (by rw [head]; exact ready.sqInside), head]

theorem NvmeController.Ready.advanced_cqTail (storage : Memory) :
    (advanceCqTail { c.rung with storage }).cqTail = (c.cqHead + 1) % queueSize := by
  have tail : ({ c.rung with storage } : EduNvmeState).cqTail = c.cqHead := ready.cqTail
  have aqa : ({ c.rung with storage } : EduNvmeState).aqa = 0x000F000F := ready.aqa
  rw [advanceCqTail_next aqa (by rw [tail]; exact ready.cqInside), tail]

/-- A command moves both queues on by one entry, on both sides. -/
theorem NvmeController.Ready.finished (cmd : NvmeCmd) : (c.finished dma cmd).Ready := by
  obtain ⟨storage, moved⟩ := c.switched_device dma cmd
  have kept : (c.finished dma cmd).dev.device =
      { c.rung with
        storage
        sqHead := (advanceSqHead queueSize (advanceCqTail { c.rung with storage })).sqHead
        cqTail := (advanceCqTail { c.rung with storage }).cqTail
        cqPhase := (advanceCqTail { c.rung with storage }).cqPhase
        cqHead := (c.cqHead + 1) % queueSize } := by
    rw [NvmeController.finished, NvmeController.submitted, c.processed_eq, moved,
      advanceSqHead_eq, advanceCqTail_eq]
  constructor
  case aqa => rw [kept]; exact ready.aqa
  case asq => rw [kept]; exact ready.asq
  case acq => rw [kept]; exact ready.acq
  case notifies => rw [kept]; exact ready.notifies
  case sqHead => rw [kept]; exact ready.advanced_sqHead storage
  case cqTail => rw [kept]; exact ready.advanced_cqTail storage
  case sqInside =>
    show ((c.sqTail + 1) % queueSize).toNat < 16
    rw [toNat_next]
    exact Nat.mod_lt _ (by decide)
  case cqInside =>
    show ((c.cqHead + 1) % queueSize).toNat < 16
    rw [toNat_next]
    exact Nat.mod_lt _ (by decide)
  case vector => exact ready.vector
  case drained => exact EventFd.drained_read _ _

include mapped

/-- The turn of the doorbell fetches the submitted command. -/
theorem NvmeController.Ready.turn (buffer : List Byte) (whole : buffer.length = 64) :
    (sqTurn dma queueSize buffer c.rung (c.dev.memcpy c.sqSlot (c.sent cmd).encode).guest).2 =
      (advanceSqHead queueSize (c.processed dma cmd).1, (c.processed dma cmd).2) := by
  have back := Memory.read_write_same c.dev.guest.memory c.sqSlot (c.sent cmd).encode
    (by rw [NvmeCmd.length_encode]; decide)
  rw [NvmeCmd.length_encode] at back
  have fetch : pciDmaRead dma (c.dev.memcpy c.sqSlot (c.sent cmd).encode).guest c.sqSlot buffer =
      (.ok, (c.sent cmd).encode, c.fetched cmd) := by
    rw [pciDmaRead_of_ok (by rw [whole]; exact mapped.reads _ _ _ ready.sqSlot_inside), whole,
      VfioDevice.memcpy_memory, back, NvmeController.fetched]
  rw [sqTurn_eq, ready.sqeAddr, fetch]
  dsimp only
  rw [NvmeCmd.decode_encode]
  rfl

/-- The doorbell takes one turn, which executes the submitted command. -/
theorem NvmeController.Ready.rings :
    nvmeAccess dma ((c.dev.memcpy c.sqSlot (c.sent cmd).encode).device,
        (c.dev.memcpy c.sqSlot (c.sent cmd).encode).guest)
      ⟨id, nvmeSq0tdbl, ((c.sqTail + 1) % queueSize).setWidth 32⟩ =
      .ok (advanceSqHead queueSize (c.processed dma cmd).1, (c.processed dma cmd).2) := by
  have tail (index : BitVec 16) : ((index.setWidth 32).setWidth 64).setWidth 16 = index := by
    simp
  have size : ((c.dev.device.aqa &&& (0xFFF : BitVec 32)) + 1).setWidth 16 = queueSize := by
    rw [ready.aqa]
    decide
  have pending : c.rung.sqHead ≠ c.rung.sqTail := by
    show c.dev.device.sqHead ≠ (c.sqTail + 1) % queueSize
    rw [ready.sqHead]
    exact next_ne _
  have turn := ready.turn mapped cmd
    (stackBuffer dma (c.dev.memcpy c.sqSlot (c.sent cmd).encode).guest 64) (length_stackBuffer ..)
  rw [VfioDevice.memcpy_device, nvmeAccess_doorbell, tail, size, ← turn]
  apply sqLoop_one (by norm_num) pending
  rw [turn]
  obtain ⟨storage, moved⟩ := c.switched_device dma cmd
  show (advanceSqHead queueSize (c.processed dma cmd).1).sqHead = (c.sqTail + 1) % queueSize
  rw [c.processed_eq, moved]
  exact ready.advanced_sqHead storage

theorem NvmeController.Ready.submitCmd :
    NvmeController.submitCmd dma c cmd = .ok (c.submitted dma cmd) := by
  have rang := VfioDevice.write32_of_ok (nvmeAccess dma) (c.dev.memcpy c.sqSlot (c.sent cmd).encode)
    (ready.rings mapped cmd)
  have slot : sqIova + c.sqTail.setWidth 64 * 64 = c.sqSlot := rfl
  have sent : { cmd with cid := c.cmdId } = c.sent cmd := rfl
  rw [NvmeController.submitCmd, sent, slot, rang, ok_bind, VfioDevice.memcpy_events]
  rfl

/-- The completion reaches the slot that the host looks at next. -/
theorem NvmeController.Ready.completed (cqe : NvmeCqe) (g : Guest NvmeMark) :
    (c.rung.complete dma g cqe).memory = g.memory.write c.cqSlot cqe.encode ∧
      (c.rung.complete dma g cqe).trace = g.trace ++
        [.mark (.completion c.cqSlot cqe), .dmaWrite c.cqSlot cqe.encode .ok, .msixNotify 0] := by
  have written := pciDmaWrite_of_ok (mapped.writes (g.log (.mark (.completion c.cqSlot cqe))).trace
    c.cqSlot cqe.encode.length (by rw [NvmeCqe.length_encode]; exact ready.cqSlot_inside))
  have notifies : c.rung.parentObj.msixEnabled = true := ready.notifies
  rw [EduNvmeState.complete, ready.cqeAddr, if_pos notifies, written]
  simp [msixNotify]

theorem NvmeController.Ready.processed_memory : (c.processed dma cmd).2.memory =
    (c.switched dma cmd).2.2.memory.write c.cqSlot (c.completion dma cmd).encode := by
  rw [c.processed_eq]
  exact (ready.completed mapped (c.completion dma cmd) (c.switched dma cmd).2.2).1

/-- The command raises the interrupt that the host waits for. -/
theorem NvmeController.Ready.processed_trace :
    ∃ later, (c.processed dma cmd).2.trace = c.dev.guest.trace ++ later ∧
      .msixNotify 0 ∈ later := by
  obtain ⟨moved, -, grown⟩ := nvmeTransfer_trace dma c.rung
    ((c.fetched cmd).log (.mark (.command (c.sent cmd)))) (c.sent cmd)
  obtain ⟨-, posted⟩ := ready.completed mapped (c.completion dma cmd) (c.switched dma cmd).2.2
  let last : List (Event NvmeMark) := [.mark (.completion c.cqSlot (c.completion dma cmd)),
    .dmaWrite c.cqSlot (c.completion dma cmd).encode .ok, .msixNotify 0]
  have notified : .msixNotify 0 ∈ last := by simp [last]
  refine ⟨[.dmaRead c.sqSlot (c.sent cmd).encode .ok, .mark (.command (c.sent cmd))] ++ moved ++ last,
    ?_, List.mem_append_right _ notified⟩
  rw [c.processed_eq, posted, NvmeController.switched, grown]
  simp [NvmeController.fetched, last]

/-- The host finds the completion of its command. -/
theorem NvmeController.Ready.waitCompletion :
    NvmeController.waitCompletion dma (c.submitted dma cmd) =
      .ok (some (c.completion dma cmd), c.finished dma cmd) := by
  obtain ⟨later, grown, notified⟩ := ready.processed_trace mapped cmd
  rw [← ready.vector] at notified
  have raised : c.dev.events.wait (c.processed dma cmd).2 =
      (true, { c.dev.events with seen := (c.processed dma cmd).2.trace.length }) :=
    ready.drained.arrives grown notified
  have back := Memory.read_write_same (c.switched dma cmd).2.2.memory c.cqSlot
    (c.completion dma cmd).encode (by rw [NvmeCqe.length_encode]; decide)
  rw [← ready.processed_memory mapped cmd, NvmeCqe.length_encode] at back
  have index (head : BitVec 16) : ((head.setWidth 32).setWidth 64).setWidth 16 = head := by
    simp
  have rings : nvmeAccess dma ((c.submitted dma cmd).dev.device, (c.processed dma cmd).2)
      ⟨id, nvmeCq0hdbl, ((c.cqHead + 1) % queueSize).setWidth 32⟩ =
      .ok ((c.finished dma cmd).dev.device, (c.processed dma cmd).2) := by
    rw [nvmeAccess_completionDoorbell, index]
    rfl
  have wrote := VfioDevice.write32_of_ok (nvmeAccess dma) { (c.submitted dma cmd).dev with
    events := { c.dev.events with seen := (c.processed dma cmd).2.trace.length } } rings
  rw [NvmeController.waitCompletion, VfioDevice.waitInterrupt_of_wait raised]
  show (VfioDevice.write32 (nvmeAccess dma) { (c.submitted dma cmd).dev with
    events := { c.dev.events with seen := (c.processed dma cmd).2.trace.length } } nvmeCq0hdbl
      (((c.cqHead + 1) % queueSize).setWidth 32) >>= fun dev => Except.ok
        (some (NvmeCqe.decode ((c.processed dma cmd).2.memory.read c.cqSlot 16)),
          (⟨dev, (c.sqTail + 1) % queueSize, (c.cqHead + 1) % queueSize, c.cmdId + 1⟩ :
            NvmeController))) = _
  rw [wrote, back, NvmeCqe.decode_encode, ok_bind]
  rfl

/-- A command is submitted, executed and answered. -/
theorem NvmeController.Ready.answered {Result : Type}
    (onward : Option NvmeCqe × NvmeController → Except Fault Result) :
    (NvmeController.submitCmd dma c cmd >>= fun c => NvmeController.waitCompletion dma c >>= onward) =
      onward (some (c.completion dma cmd), c.finished dma cmd) := by
  rw [ready.submitCmd mapped cmd]
  show (NvmeController.waitCompletion dma (c.submitted dma cmd) >>= onward) = _
  rw [ready.waitCompletion mapped cmd]
  rfl

end Command

end EduDevices
