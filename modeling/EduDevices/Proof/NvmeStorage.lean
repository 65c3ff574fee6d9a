import EduDevices.Library.BlockDevice
import EduDevices.Proof.NvmeStep

namespace EduDevices

/-- The disk is the storage in blocks. -/
def EduNvmeState.disk (s : EduNvmeState) : Disk Byte 2048 512 := fun block cell =>
  s.storage (BitVec.ofNat 64 (block * 512 + cell))

/-- The blocks of a command lie on the disk. -/
abbrev NvmeCmd.Accepted (cmd : NvmeCmd) : Prop := cmd.lba.toNat + cmd.nlb.toNat ≤ 2048

/-- An accepted write replaces its blocks by the guest bytes at its first PRP entry. -/
def NvmeCmd.blockWrite (cmd : NvmeCmd) (memory : Memory) : Option (BlockWrite Byte 2048 512) :=
  if accepted : cmd.opcode = nvmeCmdWrite ∧ cmd.Accepted then
    some {
      lba := cmd.lba.toNat
      nlb := cmd.nlb.toNat
      data := memory.read cmd.prp1 (cmd.nlb.toNat * 512)
      whole := Memory.length_read ..
      fits := accepted.2 }
  else none

section Geometry

variable (cmd : NvmeCmd)

theorem NvmeCmd.nlb_le : cmd.nlb.toNat ≤ 65536 := by
  have masked : (cmd.cdw12 &&& (0xFFFF : BitVec 32)).toNat ≤ 65535 := by
    rw [BitVec.toNat_and]
    exact Nat.and_le_right
  rw [NvmeCmd.nlb, BitVec.toNat_add]
  exact (Nat.mod_le _ _).trans (Nat.succ_le_succ masked)

/-- The check compares the sum modulo `2 ^ 64`. -/
theorem NvmeCmd.rejected_iff :
    cmd.Rejected ↔ 2048 < (cmd.lba.toNat + cmd.nlb.toNat) % 2 ^ 64 := by
  have sum : (cmd.lba + cmd.nlb.setWidth 64).toNat =
      (cmd.lba.toNat + cmd.nlb.toNat) % 2 ^ 64 := by
    rw [BitVec.toNat_add, BitVec.toNat_setWidth_of_le (by decide)]
  rw [NvmeCmd.Rejected, gt_iff_lt, BitVec.lt_def, sum]
  rfl

/-- The check of the range is exact as long as the sum does not wrap. -/
theorem NvmeCmd.rejects_iff (bounded : cmd.lba.toNat + cmd.nlb.toNat ≤ 2 ^ 64 - 1) :
    cmd.Rejected ↔ ¬ cmd.Accepted := by
  rw [cmd.rejected_iff, Nat.mod_eq_of_lt (by omega), NvmeCmd.Accepted, Nat.not_le]

theorem NvmeCmd.offset_eq : cmd.offset = BitVec.ofNat 64 (cmd.lba.toNat * 512) := by
  rw [NvmeCmd.offset, BitVec.ofNat_mul, BitVec.ofNat_toNat, BitVec.setWidth_eq]
  rfl

theorem NvmeCmd.length_eq : cmd.length = cmd.nlb.toNat * 512 := by
  have bounded := cmd.nlb_le
  rw [NvmeCmd.length, BitVec.toNat_mul]
  exact Nat.mod_eq_of_lt (by show cmd.nlb.toNat * 512 < 4294967296; omega)

end Geometry

/-- Consecutive bytes of the storage are the contents of its blocks. -/
theorem EduNvmeState.read_storage (s : EduNvmeState) (lba nlb : Nat) (fits : lba + nlb ≤ 2048) :
    s.storage.read (BitVec.ofNat 64 (lba * 512)) (nlb * 512) = s.disk.contents lba nlb fits := by
  apply List.ext_getElem
  · rw [Memory.length_read, Disk.length_contents]
  · intro index inside _
    rw [Memory.getElem_read, ← BitVec.ofNat_add]
    simp only [Disk.contents, List.getElem_ofFn, EduNvmeState.disk, Fin.divNat, Fin.modNat]
    apply congrArg s.storage
    apply congrArg (BitVec.ofNat 64)
    have split := Nat.div_add_mod index 512
    omega

/-- What an accepted command hands to its transfer is the contents of its blocks. -/
theorem EduNvmeState.blocks_eq (s : EduNvmeState) {cmd : NvmeCmd} (accepted : cmd.Accepted) :
    s.blocks cmd = s.disk.contents cmd.lba.toNat cmd.nlb.toNat accepted := by
  rw [EduNvmeState.blocks, cmd.offset_eq, cmd.length_eq, s.read_storage _ _ accepted]

/-- Writing whole blocks to the storage performs the write on the disk. -/
theorem EduNvmeState.disk_write (s : EduNvmeState) (write : BlockWrite Byte 2048 512) :
    { s with storage := s.storage.write (BitVec.ofNat 64 (write.lba * 512)) write.data }.disk =
      s.disk.perform (some write) := by
  have range := write.fits
  have length := write.whole
  funext block cell
  have blockBound := block.isLt
  have cellBound := cell.isLt
  unfold EduNvmeState.disk
  dsimp only
  rw [Memory.write_ofNat _ _ _ _ (by omega) (by omega)]
  unfold Disk.perform
  dsimp only
  by_cases covers : write.Covers block
  · have low := covers.1
    have high := covers.2
    rw [dif_pos covers, dif_pos (by omega)]
    unfold BlockWrite.block
    congr 2
    omega
  · rw [dif_neg covers, dif_neg]
    intro inside
    exact covers ⟨by omega, by omega⟩

section Transfer

variable {dma : Dma NvmeMark} {s : EduNvmeState} {g : Guest NvmeMark} {cmd : NvmeCmd}

/-- A command out of range moves nothing. -/
theorem nvmeTransfer_rejected (moves : cmd.opcode = nvmeCmdRead ∨ cmd.opcode = nvmeCmdWrite)
    (bounded : cmd.lba.toNat + cmd.nlb.toNat ≤ 2 ^ 64 - 1) (rejected : ¬ cmd.Accepted) :
    nvmeTransfer dma s g cmd = (0x8002, s, g) :=
  nvmeTransfer_refused dma s g moves ((cmd.rejects_iff bounded).mpr rejected)

/-- An accepted read copies the contents of its blocks to the guest. -/
theorem nvmeTransfer_read (reads : cmd.opcode = nvmeCmdRead) (accepted : cmd.Accepted)
    (works : dma.writeFault g.trace cmd.prp1 (cmd.nlb.toNat * 512) = none) :
    nvmeTransfer dma s g cmd = (0, s,
      ⟨g.memory.write cmd.prp1 (s.disk.contents _ _ accepted),
        g.trace ++ [.dmaWrite cmd.prp1 (s.disk.contents _ _ accepted) .ok]⟩) := by
  have small : cmd.lba.toNat + cmd.nlb.toNat ≤ 2048 := accepted
  have inside := mt (cmd.rejects_iff (by omega)).mp (not_not.mpr accepted)
  have lands : dma.writeFault g.trace cmd.prp1 (s.disk.contents _ _ accepted).length = none := by
    rw [Disk.length_contents]
    exact works
  rw [nvmeTransfer_reading dma s g reads inside, s.blocks_eq accepted, pciDmaWrite_of_ok lands]
  rfl

/-- An accepted write performs itself on the disk. -/
theorem nvmeTransfer_write (writes : cmd.opcode = nvmeCmdWrite) (accepted : cmd.Accepted)
    (works : dma.readFault g.trace cmd.prp1 (cmd.nlb.toNat * 512) = none) :
    (nvmeTransfer dma s g cmd).2.1.disk = s.disk.perform (cmd.blockWrite g.memory) := by
  have small : cmd.lba.toNat + cmd.nlb.toNat ≤ 2048 := accepted
  have inside := mt (cmd.rejects_iff (by omega)).mp (not_not.mpr accepted)
  have arrives : dma.readFault g.trace cmd.prp1 (s.blocks cmd).length = none := by
    rw [EduNvmeState.length_blocks, cmd.length_eq]
    exact works
  rw [NvmeCmd.blockWrite, dif_pos ⟨writes, accepted⟩, ← s.disk_write,
    nvmeTransfer_writing dma s g writes inside, pciDmaRead_of_ok arrives,
    EduNvmeState.length_blocks, cmd.length_eq, cmd.offset_eq]

/-- A command that neither reads nor writes leaves the device alone. -/
theorem nvmeTransfer_other (reads : cmd.opcode ≠ nvmeCmdRead) (writes : cmd.opcode ≠ nvmeCmdWrite) :
    (nvmeTransfer dma s g cmd).2.1 = s := by
  by_cases identifies : cmd.opcode = nvmeCmdIdentify
  · rw [nvmeTransfer_identify dma s g identifies]
    split <;> rfl
  · rw [nvmeTransfer_unknown dma s g identifies reads writes]

end Transfer

/-- The addresses of a read or a write do not wrap, and the transfer of its data succeeds. -/
structure Admissible (dma : Dma NvmeMark) (g : Guest NvmeMark) (cmd : NvmeCmd) : Prop where
  bounded : cmd.opcode = nvmeCmdRead ∨ cmd.opcode = nvmeCmdWrite →
    cmd.lba.toNat + cmd.nlb.toNat ≤ 2 ^ 64 - 1
  read : cmd.opcode = nvmeCmdRead → cmd.Accepted →
    dma.writeFault (g.log (.mark (.command cmd))).trace cmd.prp1 (cmd.nlb.toNat * 512) = none
  write : cmd.opcode = nvmeCmdWrite → cmd.Accepted →
    dma.readFault (g.log (.mark (.command cmd))).trace cmd.prp1 (cmd.nlb.toNat * 512) = none

/-- The command copied the data to the guest, and otherwise wrote its completion only. -/
def CopiesOut (s : EduNvmeState) (g : Guest NvmeMark) (cmd : NvmeCmd) (data : List Byte)
    (next : EduNvmeState × Guest NvmeMark) : Prop :=
  (∃ posted, next.2.trace = g.trace ++ ([.mark (.command cmd), .dmaWrite cmd.prp1 data .ok,
    .mark (.completion s.cqeAddr (s.completionOf cmd 0)),
    .dmaWrite s.cqeAddr (s.completionOf cmd 0).encode posted] ++ s.notices)) ∧
  ∀ address, ¬ Within s.cqeAddr 16 address →
    next.2.memory address = g.memory.write cmd.prp1 data address

/-- The command changed nothing but its completion, which has the status code for a bad range. -/
def Refuses (s : EduNvmeState) (g : Guest NvmeMark) (cmd : NvmeCmd)
    (next : EduNvmeState × Guest NvmeMark) : Prop :=
  (∃ cqe posted, cqe.status.setWidth 8 = 2#8 ∧ next.2.trace = g.trace ++ ([.mark (.command cmd),
    .mark (.completion s.cqeAddr cqe), .dmaWrite s.cqeAddr cqe.encode posted] ++ s.notices)) ∧
  next.1.storage = s.storage ∧
  ∀ address, ¬ Within s.cqeAddr 16 address → next.2.memory address = g.memory address

section Step

variable {dma : Dma NvmeMark} {s : EduNvmeState} {g : Guest NvmeMark} {cmd : NvmeCmd}
  (admissible : Admissible dma g cmd)

include admissible

/-- Processing a command performs its write, if it is one, on the disk. -/
theorem Admissible.disk :
    (eduNvmeProcessCmd dma s g cmd).1.disk = s.disk.perform (cmd.blockWrite g.memory) := by
  have kept : (eduNvmeProcessCmd dma s g cmd).1.disk =
      (nvmeTransfer dma s (g.log (.mark (.command cmd))) cmd).2.1.disk := by
    unfold EduNvmeState.disk
    rw [eduNvmeProcessCmd_storage]
  rw [kept]
  by_cases writes : cmd.opcode = nvmeCmdWrite
  · by_cases accepted : cmd.Accepted
    · exact nvmeTransfer_write writes accepted (admissible.write writes accepted)
    · rw [nvmeTransfer_rejected (.inr writes) (admissible.bounded (.inr writes)) accepted,
        NvmeCmd.blockWrite, dif_neg (fun both => accepted both.2)]
      rfl
  · rw [NvmeCmd.blockWrite, dif_neg (fun both => writes both.1)]
    by_cases reads : cmd.opcode = nvmeCmdRead
    · by_cases accepted : cmd.Accepted
      · rw [nvmeTransfer_read reads accepted (admissible.read reads accepted)]
        rfl
      · rw [nvmeTransfer_rejected (.inl reads) (admissible.bounded (.inl reads)) accepted]
        rfl
    · rw [nvmeTransfer_other reads writes]
      rfl

theorem Admissible.copiesOut (reads : cmd.opcode = nvmeCmdRead) (accepted : cmd.Accepted) :
    CopiesOut s g cmd (s.disk.contents _ _ accepted) (eduNvmeProcessCmd dma s g cmd) := by
  obtain ⟨posted, -, trace, memory⟩ := eduNvmeProcessCmd_of_transfer dma s g cmd
    (nvmeTransfer_read reads accepted (admissible.read reads accepted))
  refine ⟨⟨posted, ?_⟩, memory⟩
  rw [trace, Guest.log_trace]
  simp only [List.append_assoc, List.cons_append, List.nil_append]

theorem Admissible.refuses (moves : cmd.opcode = nvmeCmdRead ∨ cmd.opcode = nvmeCmdWrite)
    (rejected : ¬ cmd.Accepted) : Refuses s g cmd (eduNvmeProcessCmd dma s g cmd) := by
  obtain ⟨posted, device, trace, memory⟩ := eduNvmeProcessCmd_of_transfer dma s g cmd
    (nvmeTransfer_rejected moves (admissible.bounded moves) rejected)
  have code : ∀ phase : BitVec 8,
      ((0x8002 : BitVec 16) ||| (phase.setWidth 16 <<< 8)).setWidth 8 = 2#8 := by decide
  refine ⟨⟨s.completionOf cmd 0x8002, posted, code s.cqPhase, ?_⟩, ?_, memory⟩
  · rw [trace, Guest.log_trace]
    simp only [List.append_assoc, List.cons_append, List.nil_append]
  · rw [device, advanceCqTail_eq]

end Step

/-- A command arrives at the device. Before it is processed anything may happen to the guest and to
the registers, but not to the storage. -/
structure NvmeIssue where
  cmd : NvmeCmd
  prepare : EduNvmeState × Guest NvmeMark → EduNvmeState × Guest NvmeMark
  spares : ∀ machine, (prepare machine).1.storage = machine.1.storage

theorem NvmeIssue.disk_prepare (issue : NvmeIssue) (machine : EduNvmeState × Guest NvmeMark) :
    (issue.prepare machine).1.disk = machine.1.disk := by
  unfold EduNvmeState.disk
  rw [issue.spares]

def nvmeIssue (dma : Dma NvmeMark) (machine : EduNvmeState × Guest NvmeMark) (issue : NvmeIssue) :
    EduNvmeState × Guest NvmeMark :=
  eduNvmeProcessCmd dma (issue.prepare machine).1 (issue.prepare machine).2 issue.cmd

/-- The block writes of a sequence of commands take their data from the guest as it then is. -/
def blockWrites (dma : Dma NvmeMark) :
    EduNvmeState × Guest NvmeMark → List NvmeIssue → List (Option (BlockWrite Byte 2048 512))
  | _, [] => []
  | machine, issue :: rest =>
      issue.cmd.blockWrite (issue.prepare machine).2.memory ::
        blockWrites dma (nvmeIssue dma machine issue) rest

def AllAdmissible (dma : Dma NvmeMark) (machine : EduNvmeState × Guest NvmeMark)
    (issues : List NvmeIssue) : Prop :=
  ∀ before issue after, issues = before ++ issue :: after →
    Admissible dma (issue.prepare (before.foldl (nvmeIssue dma) machine)).2 issue.cmd

/-- The device simulates the block device over every run. -/
theorem foldl_disk (dma : Dma NvmeMark) (machine : EduNvmeState × Guest NvmeMark)
    (issues : List NvmeIssue) (admissible : AllAdmissible dma machine issues) :
    (issues.foldl (nvmeIssue dma) machine).1.disk =
      (blockWrites dma machine issues).foldl Disk.perform machine.1.disk := by
  induction issues generalizing machine with
  | nil => rfl
  | cons issue rest ih =>
      have first := admissible [] issue rest rfl
      have later : AllAdmissible dma (nvmeIssue dma machine issue) rest := by
        rintro before other after rfl
        exact admissible (issue :: before) other after rfl
      have step : (nvmeIssue dma machine issue).1.disk =
          machine.1.disk.perform (issue.cmd.blockWrite (issue.prepare machine).2.memory) := by
        rw [← issue.disk_prepare machine]
        exact first.disk
      rw [List.foldl_cons, ih _ later, step]
      rfl

/-- The storage is a block device: it holds what the accepted writes put there, the last write to a
block decides its contents, an accepted read copies out exactly what the block device holds, and a
command out of range has no effect but its completion. -/
theorem nvmeStorage_refines (dma : Dma NvmeMark) (machine : EduNvmeState × Guest NvmeMark)
    (issues : List NvmeIssue) (admissible : AllAdmissible dma machine issues) :
    (issues.foldl (nvmeIssue dma) machine).1.disk =
      (blockWrites dma machine issues).foldl Disk.perform machine.1.disk ∧
    (∀ before (write : BlockWrite Byte 2048 512) after (block : Fin 2048)
        (covers : write.Covers block),
      blockWrites dma machine issues = before ++ some write :: after →
      (∀ later ∈ after, ∀ known ∈ later, ¬ known.Covers block) →
      (issues.foldl (nvmeIssue dma) machine).1.disk block = write.block block covers) ∧
    ∀ before issue after, issues = before ++ issue :: after →
      let prepared := issue.prepare (before.foldl (nvmeIssue dma) machine)
      let disk := (blockWrites dma machine before).foldl Disk.perform machine.1.disk
      let next := eduNvmeProcessCmd dma prepared.1 prepared.2 issue.cmd
      (∀ accepted : issue.cmd.Accepted, issue.cmd.opcode = nvmeCmdRead →
        CopiesOut prepared.1 prepared.2 issue.cmd (disk.contents _ _ accepted) next) ∧
      (¬ issue.cmd.Accepted → issue.cmd.opcode = nvmeCmdRead ∨ issue.cmd.opcode = nvmeCmdWrite →
        Refuses prepared.1 prepared.2 issue.cmd next) := by
  refine ⟨foldl_disk dma machine issues admissible, ?_, ?_⟩
  · intro before write after block covers split uncovered
    rw [foldl_disk dma machine issues admissible, split]
    exact Disk.foldl_perform_covered _ before after write block covers uncovered
  · intro before issue after split prepared disk next
    have earlier : AllAdmissible dma machine before := by
      rintro start other rest rfl
      exact admissible start other (rest ++ issue :: after) (by rw [split, List.append_assoc]; rfl)
    have current : prepared.1.disk = disk :=
      (issue.disk_prepare _).trans (foldl_disk dma machine before earlier)
    have admitted := admissible before issue after split
    rw [← current]
    exact ⟨fun accepted reads => admitted.copiesOut reads accepted,
      fun rejected moves => admitted.refuses moves rejected⟩

/-- The last two blocks of the disk are written and then read. -/
theorem nvmeStorage_refines_lastBlocks :
    let dma : Dma NvmeMark := DmaPattern.reliable.dma fun _ _ => 0
    let machine : EduNvmeState × Guest NvmeMark :=
      (EduNvmeState.realized ⟨false⟩ fun _ => 0, ⟨fun address => address.setWidth 8, []⟩)
    let writes : NvmeCmd :=
      { NvmeCmd.decode [] with opcode := nvmeCmdWrite, prp1 := 0x1000, cdw10 := 2046, cdw12 := 1 }
    let reads : NvmeCmd := { writes with opcode := nvmeCmdRead, prp1 := 0x3000 }
    let issues : List NvmeIssue := [⟨writes, id, fun _ => rfl⟩, ⟨reads, id, fun _ => rfl⟩]
    let written := nvmeIssue dma machine ⟨writes, id, fun _ => rfl⟩
    (issues.foldl (nvmeIssue dma) machine).1.disk =
      (blockWrites dma machine issues).foldl Disk.perform machine.1.disk ∧
    CopiesOut written.1 written.2 reads
      ((machine.1.disk.perform (writes.blockWrite machine.2.memory)).contents reads.lba.toNat
        reads.nlb.toNat (by decide))
      (eduNvmeProcessCmd dma written.1 written.2 reads) := by
  intro dma machine writes reads issues written
  have admissible : AllAdmissible dma machine issues := by
    intro before issue after split
    have member : issue ∈ issues := by
      rw [split]
      exact List.mem_append_right before List.mem_cons_self
    rcases List.mem_cons.mp member with rfl | member
    · exact ⟨fun _ => by decide, fun _ _ => rfl, fun _ _ => rfl⟩
    · obtain rfl := List.mem_singleton.mp member
      exact ⟨fun _ => by decide, fun _ _ => rfl, fun _ _ => rfl⟩
  obtain ⟨refines, -, answers⟩ := nvmeStorage_refines dma machine issues admissible
  have answer := answers [⟨writes, id, fun _ => rfl⟩] ⟨reads, id, fun _ => rfl⟩ [] rfl
  exact ⟨refines, answer.1 (by decide) rfl⟩

end EduDevices
