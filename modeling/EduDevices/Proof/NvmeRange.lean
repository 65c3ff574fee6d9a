import EduDevices.Proof.NvmeStatus

namespace EduDevices

/-- The command passed the check and hands the byte at the offset to its transfer. -/
def NvmeCmd.Touches (cmd : NvmeCmd) (offset : Address) : Prop :=
  ¬ cmd.Rejected ∧ Within cmd.offset cmd.length offset

/-- The command leaves the storage that it does not touch, and does not depend on it. -/
structure TouchesOnly (dma : Dma NvmeMark) (s : EduNvmeState) (g : Guest NvmeMark)
    (cmd : NvmeCmd) : Prop where
  leaves : ∀ offset, ¬ cmd.Touches offset →
    (eduNvmeProcessCmd dma s g cmd).1.storage offset = s.storage offset
  ignores : ∀ storage : Memory, (∀ offset, cmd.Touches offset → storage offset = s.storage offset) →
    (eduNvmeProcessCmd dma { s with storage } g cmd).2 = (eduNvmeProcessCmd dma s g cmd).2

/-- The check rejects exactly the commands that leave the disk, and those that pass stay on it. -/
structure RangeExact (dma : Dma NvmeMark) (s : EduNvmeState) (g : Guest NvmeMark)
    (cmd : NvmeCmd) : Prop where
  rejects : ∀ cqe, Completes dma s g cmd cqe → (cqe.code = 2 ↔ 2048 < cmd.lba.toNat + cmd.nlb.toNat)
  bounded : ∀ cqe, Completes dma s g cmd cqe → cqe.code ≠ 2 →
    cmd.lba.toNat * 512 + cmd.nlb.toNat * 512 ≤ 1024 * 1024
  inside : ∀ offset, cmd.Touches offset → offset.toNat < 1024 * 1024

section Range

variable {dma : Dma NvmeMark} {s : EduNvmeState} {g : Guest NvmeMark} {cmd : NvmeCmd}
  (moves : cmd.opcode = nvmeCmdRead ∨ cmd.opcode = nvmeCmdWrite)

include moves

/-- Only the check gives the status code for a bad range. -/
theorem nvmeTransfer_range_iff :
    (nvmeTransfer dma s g cmd).1.setWidth 8 = 2#8 ↔ cmd.Rejected := by
  have range : (0x8002 : BitVec 16).setWidth 8 = 2#8 := by decide
  by_cases rejected : cmd.Rejected
  · rw [nvmeTransfer_refused _ _ _ moves rejected]
    exact iff_of_true range rejected
  · refine iff_of_false ?_ rejected
    rcases moves with reads | writes
    · rw [nvmeTransfer_reading _ _ _ reads rejected]
      dsimp only
      split <;> decide
    · rw [nvmeTransfer_writing _ _ _ writes rejected]
      dsimp only
      split <;> decide

theorem nvmeTransfer_leaves (offset : Address) (untouched : ¬ cmd.Touches offset) :
    (nvmeTransfer dma s g cmd).2.1.storage offset = s.storage offset := by
  by_cases rejected : cmd.Rejected
  · rw [nvmeTransfer_refused _ _ _ moves rejected]
  · rcases moves with reads | writes
    · rw [nvmeTransfer_reading _ _ _ reads rejected]
    · rw [nvmeTransfer_writing _ _ _ writes rejected]
      apply Memory.write_outside
      rw [pciDmaRead_length, EduNvmeState.length_blocks]
      exact fun inside => untouched ⟨rejected, inside⟩

theorem nvmeTransfer_ignores (storage : Memory)
    (same : ∀ offset, cmd.Touches offset → storage offset = s.storage offset) :
    (nvmeTransfer dma { s with storage } g cmd).1 = (nvmeTransfer dma s g cmd).1 ∧
      (nvmeTransfer dma { s with storage } g cmd).2.2 = (nvmeTransfer dma s g cmd).2.2 := by
  by_cases rejected : cmd.Rejected
  · rw [nvmeTransfer_refused _ _ _ moves rejected, nvmeTransfer_refused _ _ _ moves rejected]
    exact ⟨rfl, rfl⟩
  · have blocks : ({ s with storage } : EduNvmeState).blocks cmd = s.blocks cmd :=
      Memory.read_congr fun _ inside => same _ ⟨rejected, within_add cmd.offset inside⟩
    rcases moves with reads | writes
    · rw [nvmeTransfer_reading _ _ _ reads rejected, nvmeTransfer_reading _ _ _ reads rejected,
        blocks]
      exact ⟨rfl, rfl⟩
    · rw [nvmeTransfer_writing _ _ _ writes rejected, nvmeTransfer_writing _ _ _ writes rejected,
        blocks]
      exact ⟨rfl, rfl⟩

theorem touchesOnly : TouchesOnly dma s g cmd := by
  constructor
  · intro offset untouched
    rw [eduNvmeProcessCmd_storage]
    exact nvmeTransfer_leaves moves offset untouched
  · intro storage same
    obtain ⟨status, guest⟩ := @nvmeTransfer_ignores dma s (g.log (.mark (.command cmd))) cmd
      moves storage same
    rw [eduNvmeProcessCmd_eq, eduNvmeProcessCmd_eq, status, guest]
    rfl

end Range

/-- A command that the exact check admits stays on the disk. -/
theorem NvmeCmd.Accepted.touches {cmd : NvmeCmd} (accepted : cmd.Accepted) {offset : Address}
    (touched : cmd.Touches offset) : offset.toNat < 1024 * 1024 := by
  have small : cmd.lba.toNat + cmd.nlb.toNat ≤ 2048 := accepted
  have inside : (offset - cmd.offset).toNat < cmd.length := touched.2
  rw [cmd.offset_eq, cmd.length_eq] at inside
  bv_omega

/-- The check is exact, and keeps every read and write on the disk, except for the commands whose
range wraps around to the first blocks. -/
theorem nvmeRange_exact_iff (dma : Dma NvmeMark) (s : EduNvmeState) (g : Guest NvmeMark)
    (cmd : NvmeCmd) (moves : cmd.opcode = nvmeCmdRead ∨ cmd.opcode = nvmeCmdWrite) :
    TouchesOnly dma s g cmd ∧
      (RangeExact dma s g cmd ↔ ¬ (2 ^ 64 ≤ cmd.lba.toNat + cmd.nlb.toNat ∧
        cmd.lba.toNat + cmd.nlb.toNat ≤ 2 ^ 64 + 2048)) := by
  refine ⟨touchesOnly moves, ?_⟩
  have high := cmd.lba.isLt
  have wide := cmd.nlb_le
  have check : ∀ cqe, Completes dma s g cmd cqe →
      (cqe.code = 2 ↔ 2048 < (cmd.lba.toNat + cmd.nlb.toNat) % 2 ^ 64) := by
    intro cqe completes
    rw [completes.code, ← cmd.rejected_iff]
    exact nvmeTransfer_range_iff moves
  constructor
  · intro exactness wraps
    have rejected := exactness.rejects _ (completes_iff.mpr rfl)
    rw [check _ (completes_iff.mpr rfl)] at rejected
    omega
  · intro whole
    have same : 2048 < (cmd.lba.toNat + cmd.nlb.toNat) % 2 ^ 64 ↔
        2048 < cmd.lba.toNat + cmd.nlb.toNat := by omega
    constructor
    · intro cqe completes
      exact (check cqe completes).trans same
    · intro cqe completes passed
      have small := mt (check cqe completes).mpr passed
      omega
    · intro offset touched
      have passed := touched.1
      rw [cmd.rejected_iff, same, Nat.not_lt] at passed
      exact NvmeCmd.Accepted.touches passed touched

/-- A write of the last block. -/
theorem nvmeRange_exact_iff_lastBlock :
    let dma : Dma NvmeMark := DmaPattern.reliable.dma fun _ _ => 0
    let s := EduNvmeState.realized ⟨false⟩ fun _ => 0
    let g : Guest NvmeMark := ⟨fun _ => 0, []⟩
    let cmd : NvmeCmd := { NvmeCmd.decode [] with opcode := nvmeCmdWrite, cdw10 := 2047 }
    TouchesOnly dma s g cmd ∧ RangeExact dma s g cmd := by
  intro dma s g cmd
  obtain ⟨touches, exactness⟩ := nvmeRange_exact_iff dma s g cmd (.inr rfl)
  exact ⟨touches, exactness.mpr (by decide)⟩

/-- The block count takes the last address to zero, and the write goes in front of the storage. -/
theorem nvmeRange_wraps :
    let dma : Dma NvmeMark := DmaPattern.reliable.dma fun _ _ => 0
    let s := EduNvmeState.realized ⟨false⟩ fun _ => 0
    let g : Guest NvmeMark := ⟨fun _ => 0, []⟩
    let cmd : NvmeCmd :=
      { NvmeCmd.decode [] with opcode := nvmeCmdWrite, cdw10 := 0xFFFFFFFF, cdw11 := 0xFFFFFFFF }
    ¬ RangeExact dma s g cmd ∧ (∃ cqe, Completes dma s g cmd cqe ∧ cqe.code = 0) ∧
      cmd.Touches (-512) := by
  intro dma s g cmd
  have passed : ¬ cmd.Rejected := by decide
  refine ⟨fun exactness => ?_, ⟨_, completes_iff.mpr rfl, ?_⟩, passed, by decide⟩
  · exact absurd (exactness.inside (-512) ⟨passed, by decide⟩) (by decide)
  · rw [completionOf_code, nvmeTransfer_writing _ _ _ rfl passed]
    rfl

end EduDevices
