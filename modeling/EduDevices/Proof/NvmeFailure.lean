import EduDevices.Library.Execution
import EduDevices.Proof.NvmeRange

namespace EduDevices

open Execution

theorem NvmeCmd.length_le (cmd : NvmeCmd) : cmd.length ≤ 2 ^ 64 := by
  have bounded := cmd.nlb_le
  rw [cmd.length_eq]
  omega

section Write

variable {dma : Dma NvmeMark} {s : EduNvmeState} {g : Guest NvmeMark} {cmd : NvmeCmd}

/-- An accepted write keeps the storage exactly when its read gives the blocks back. -/
theorem nvmeTransfer_keeps_iff (writes : cmd.opcode = nvmeCmdWrite) (passed : ¬ cmd.Rejected) :
    (nvmeTransfer dma s g cmd).2.1.storage = s.storage ↔
      (pciDmaRead dma g cmd.prp1 (s.blocks cmd)).2.1 = s.blocks cmd := by
  have same : (pciDmaRead dma g cmd.prp1 (s.blocks cmd)).2.1.length = cmd.length := by
    rw [pciDmaRead_length, EduNvmeState.length_blocks]
  rw [nvmeTransfer_writing _ _ _ writes passed, Memory.write_eq_self_iff, same]
  · rfl
  · rw [same]
    exact cmd.length_le

end Write

/-- A write that completes with an error leaves everything outside of its range as it was. It leaves
the range as it was when the check rejects it, and otherwise as the failed read leaves the buffer. -/
theorem nvmeFailedWrite_confined (dma : Dma NvmeMark) (s : EduNvmeState) (g : Guest NvmeMark)
    (cmd : NvmeCmd) (writes : cmd.opcode = nvmeCmdWrite) (cqe : NvmeCqe)
    (completes : Completes dma s g cmd cqe) (failed : cqe.code ≠ 0) :
    let next := (eduNvmeProcessCmd dma s g cmd).1
    (∀ offset, ¬ Within cmd.offset cmd.length offset → next.storage offset = s.storage offset) ∧
      (cmd.Rejected → next.storage = s.storage) ∧
      (¬ cmd.Rejected → ∃ fill,
        dma.readFault (g.log (.mark (.command cmd))).trace cmd.prp1 cmd.length = some fill ∧
        (∀ index, index < cmd.length →
          next.storage (cmd.offset + BitVec.ofNat 64 index) =
            (fill index).getD (s.storage (cmd.offset + BitVec.ofNat 64 index))) ∧
        (next.storage = s.storage ↔ FaultLeaves fill (s.blocks cmd))) := by
  intro next
  have storage : next.storage = _ := eduNvmeProcessCmd_storage dma s g cmd
  have leaves : ∀ offset, ¬ cmd.Touches offset → next.storage offset = s.storage offset := by
    intro offset untouched
    rw [storage]
    exact nvmeTransfer_leaves (.inr writes) offset untouched
  refine ⟨fun offset outside => leaves offset fun touched => outside touched.2,
    fun rejected => funext fun offset => leaves offset fun touched => touched.1 rejected,
    fun passed => ?_⟩
  rw [completes.code, nvmeTransfer_writing _ _ _ writes passed] at failed
  cases fault : dma.readFault (g.log (.mark (.command cmd))).trace cmd.prp1 cmd.length with
  | none =>
      rw [← s.length_blocks cmd, ← pciDmaRead_ok_iff] at fault
      rw [fault] at failed
      exact absurd rfl failed
  | some fill =>
      have read := @pciDmaRead_of_error _ dma (g.log (.mark (.command cmd))) cmd.prp1 (s.blocks cmd) fill
        (by rwa [s.length_blocks cmd])
      have keeps := @nvmeTransfer_keeps_iff dma s (g.log (.mark (.command cmd))) cmd writes passed
      rw [← storage, read, ← faultLeaves_iff] at keeps
      rw [nvmeTransfer_writing _ _ _ writes passed, read] at storage
      dsimp only at storage
      refine ⟨fill, rfl, fun index inside => ?_, keeps⟩
      have stands : index < (s.blocks cmd).length := by rwa [s.length_blocks cmd]
      rw [storage, Memory.write_inside _ _ _ _ (by simpa using stands) (by simpa using cmd.length_le),
        List.getElem_mapIdx]
      exact congrArg _ (Memory.getElem_read _ _ _ _ stands)

/-- The bus takes a write of the first block for its first byte only. -/
theorem nvmeFailedWrite_confined_torn :
    let dma : Dma NvmeMark := (DmaPattern.mk
      (fun _ length => if length = 512 then some fun index => if index = 0 then some 7 else none else none)
      fun _ _ => none).dma fun _ _ => 0
    let s := EduNvmeState.realized ⟨false⟩ fun _ => 0
    let g : Guest NvmeMark := ⟨fun _ => 0, []⟩
    let cmd : NvmeCmd := { NvmeCmd.decode [] with opcode := nvmeCmdWrite, prp1 := 0x1000 }
    let next := (eduNvmeProcessCmd dma s g cmd).1
    next.storage 0 = 7 ∧ ∀ offset, 512 ≤ offset.toNat → next.storage offset = s.storage offset := by
  intro dma s g cmd next
  have completes : Completes dma s g cmd _ := completes_iff.mpr rfl
  have failed : (s.completionOf cmd (nvmeTransfer dma s (g.log (.mark (.command cmd))) cmd).1).code ≠ 0 := by
    decide +kernel
  obtain ⟨outside, -, torn⟩ := nvmeFailedWrite_confined dma s g cmd rfl _ completes failed
  have start : cmd.offset = 0#64 := by decide
  have length : cmd.length = 512 := by decide
  constructor
  · obtain ⟨fill, fault, bytes, -⟩ := torn (by decide)
    have first : some (fun index => if index = 0 then some 7 else none) = some fill := by
      rw [← fault, length]
      rfl
    obtain rfl := Option.some.inj first
    have byte := bytes 0 (by decide)
    rw [start] at byte
    exact byte
  · intro offset beyond
    apply outside
    rw [Within, start, length, BitVec.sub_zero]
    exact Nat.not_lt_of_le beyond

/-- A write fails after its first byte, and that byte of the storage has changed. -/
theorem nvmeFailedWrite_tears :
    let dma : Dma NvmeMark := (DmaPattern.mk
      (fun _ length => if length = 512 then some fun index => if index = 0 then some 7 else none else none)
      fun _ _ => none).dma fun _ _ => 0
    let s := EduNvmeState.realized ⟨false⟩ fun _ => 0
    let g : Guest NvmeMark := ⟨fun _ => 0, []⟩
    let cmd : NvmeCmd := { NvmeCmd.decode [] with opcode := nvmeCmdWrite, prp1 := 0x1000 }
    ∃ cqe, Completes dma s g cmd cqe ∧ cqe.code ≠ 0 ∧
      (eduNvmeProcessCmd dma s g cmd).1.storage ≠ s.storage := by
  intro dma s g cmd
  have changed : (eduNvmeProcessCmd dma s g cmd).1.storage 0 = 7 := by decide +kernel
  refine ⟨_, completes_iff.mpr rfl, by decide +kernel, fun same => ?_⟩
  rw [same] at changed
  exact absurd changed (by decide)

end EduDevices
