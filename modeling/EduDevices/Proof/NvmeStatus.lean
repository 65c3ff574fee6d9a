import EduDevices.Proof.NvmeStorage

namespace EduDevices

/-- The status code is the low byte of the status. -/
def NvmeCqe.code (cqe : NvmeCqe) : BitVec 8 := cqe.status.setWidth 8

/-- The device posts the completion for the command, after at most one transfer of its data. -/
def Completes (dma : Dma NvmeMark) (s : EduNvmeState) (g : Guest NvmeMark) (cmd : NvmeCmd)
    (cqe : NvmeCqe) : Prop :=
  ∃ moved posted, DataMove cmd moved ∧ (eduNvmeProcessCmd dma s g cmd).2.trace =
    g.trace ++ (.mark (.command cmd) :: moved ++
      [.mark (.completion s.cqeAddr cqe), .dmaWrite s.cqeAddr cqe.encode posted] ++ s.notices)

/-- The data of the command moved in this transfer, and the memory outside of the slot for the
completion is as the transfer left it. -/
def Moves (dma : Dma NvmeMark) (s : EduNvmeState) (g : Guest NvmeMark) (cmd : NvmeCmd)
    (transfer : Event NvmeMark) (memory : Memory) : Prop :=
  (∃ cqe posted, (eduNvmeProcessCmd dma s g cmd).2.trace =
    g.trace ++ ([.mark (.command cmd), transfer, .mark (.completion s.cqeAddr cqe),
      .dmaWrite s.cqeAddr cqe.encode posted] ++ s.notices)) ∧
  ∀ address, ¬ Within s.cqeAddr 16 address →
    (eduNvmeProcessCmd dma s g cmd).2.memory address = memory address

/-- The command is one that moves data, and all of its data moved without an error. -/
inductive CarriedOut (dma : Dma NvmeMark) (s : EduNvmeState) (g : Guest NvmeMark)
    (cmd : NvmeCmd) : Prop
  | identify (opcode : cmd.opcode = nvmeCmdIdentify)
      (moved : Moves dma s g cmd (.dmaWrite cmd.prp1 identifyData .ok)
        (g.memory.write cmd.prp1 identifyData))
  | read (opcode : cmd.opcode = nvmeCmdRead) (accepted : cmd.Accepted)
      (moved : Moves dma s g cmd (.dmaWrite cmd.prp1 (s.disk.contents _ _ accepted) .ok)
        (g.memory.write cmd.prp1 (s.disk.contents _ _ accepted)))
  | write (opcode : cmd.opcode = nvmeCmdWrite) (accepted : cmd.Accepted)
      (moved : Moves dma s g cmd
        (.dmaRead cmd.prp1 (g.memory.read cmd.prp1 (cmd.nlb.toNat * 512)) .ok) g.memory)
      (stored : (eduNvmeProcessCmd dma s g cmd).1.disk = s.disk.perform (cmd.blockWrite g.memory))

section Completion

variable {dma : Dma NvmeMark} {s : EduNvmeState} {g : Guest NvmeMark} {cmd : NvmeCmd}

/-- The completion that the device posts carries the status that the switch gives. -/
theorem completes_iff {cqe : NvmeCqe} : Completes dma s g cmd cqe ↔
    cqe = s.completionOf cmd (nvmeTransfer dma s (g.log (.mark (.command cmd))) cmd).1 := by
  obtain ⟨moved, move, trace⟩ := nvmeTransfer_trace dma s (g.log (.mark (.command cmd))) cmd
  obtain ⟨posted, logged⟩ := eduNvmeProcessCmd_trace dma s g cmd trace
  constructor
  · intro ⟨other, again, moves, same⟩
    rw [logged] at same
    have marks := congrArg (List.filterMap Event.marked) same
    simp only [List.filterMap_append, List.filterMap_cons, move.unmarked, moves.unmarked,
      Event.marked, List.append_assoc, List.append_cancel_left_eq, List.cons_append,
      List.nil_append, List.cons.injEq, true_and, NvmeMark.completion.injEq] at marks
    exact marks.1.symm
  · intro known
    subst known
    exact ⟨moved, posted, move, logged⟩

/-- The phase does not reach the status code. -/
theorem completionOf_code (status : BitVec 16) :
    (s.completionOf cmd status).code = status.setWidth 8 := by
  apply BitVec.eq_of_getLsbD_eq
  intro index low
  simp [NvmeCqe.code, EduNvmeState.completionOf, low]

theorem Completes.code {cqe : NvmeCqe} (completes : Completes dma s g cmd cqe) :
    cqe.code = (nvmeTransfer dma s (g.log (.mark (.command cmd))) cmd).1.setWidth 8 := by
  rw [completes_iff.mp completes, completionOf_code]

/-- The transfer that moved the data is the one that the switch made. -/
theorem Moves.transfer {status : BitVec 16} {storage memory : Memory} {guest : Guest NvmeMark}
    {moved : List (Event NvmeMark)} {transfer : Event NvmeMark}
    (moves : Moves dma s g cmd transfer memory)
    (switched : nvmeTransfer dma s (g.log (.mark (.command cmd))) cmd =
      (status, { s with storage }, guest))
    (grown : guest.trace = (g.log (.mark (.command cmd))).trace ++ moved) : moved = [transfer] := by
  obtain ⟨posted, -, logged, -⟩ := eduNvmeProcessCmd_of_transfer dma s g cmd switched
  obtain ⟨⟨cqe, other, same⟩, -⟩ := moves
  rw [logged, grown, Guest.log_trace, List.append_assoc, List.append_assoc] at same
  have later := List.append_cancel_left same
  rw [← List.append_assoc, ← List.append_assoc] at later
  have events := List.append_cancel_right later
  have data : moved ++ [_, _] = [transfer] ++ [_, _] := (List.cons.inj events).2
  exact (List.append_inj' data rfl).1

theorem moves_of_transfer {status : BitVec 16} {storage : Memory} {guest : Guest NvmeMark}
    {transfer : Event NvmeMark}
    (switched : nvmeTransfer dma s (g.log (.mark (.command cmd))) cmd =
      (status, { s with storage }, guest))
    (grown : guest.trace = (g.log (.mark (.command cmd))).trace ++ [transfer]) :
    Moves dma s g cmd transfer guest.memory := by
  obtain ⟨posted, -, logged, memory⟩ := eduNvmeProcessCmd_of_transfer dma s g cmd switched
  refine ⟨⟨s.completionOf cmd status, posted, ?_⟩, memory⟩
  rw [logged, grown, Guest.log_trace]
  simp only [List.append_assoc, List.cons_append, List.nil_append]

end Completion

section Opcodes

variable {dma : Dma NvmeMark} {s : EduNvmeState} {g : Guest NvmeMark} {cmd : NvmeCmd}

theorem length_identifyData : identifyData.length = 4096 := by
  rw [identifyData, List.length_map, List.length_range]

/-- The identify data arrives unless the command has no address for it or the bus fails. -/
theorem carriedOut_identify_iff (identifies : cmd.opcode = nvmeCmdIdentify) :
    CarriedOut dma s g cmd ↔ cmd.prp1 ≠ 0 ∧
      dma.writeFault (g.log (.mark (.command cmd))).trace cmd.prp1 4096 = none := by
  have switched := nvmeTransfer_identify dma s (g.log (.mark (.command cmd))) identifies
  constructor
  · intro carried
    cases carried with
    | identify opcode moved =>
        by_cases addressed : cmd.prp1 ≠ 0
        · rw [if_pos addressed] at switched
          have event := moved.transfer switched (pciDmaWrite_trace ..)
          simp only [List.cons.injEq, and_true, Event.dmaWrite.injEq, true_and] at event
          refine ⟨addressed, ?_⟩
          rw [← length_identifyData]
          exact (pciDmaWrite_ok_iff ..).mp event
        · rw [if_neg addressed] at switched
          exact absurd (moved.transfer switched (List.append_nil _).symm) (by simp)
    | read opcode => exact absurd (identifies.symm.trans opcode) (by decide)
    | write opcode => exact absurd (identifies.symm.trans opcode) (by decide)
  · intro ⟨addressed, works⟩
    rw [← length_identifyData] at works
    rw [if_pos addressed] at switched
    have moved := moves_of_transfer switched (pciDmaWrite_trace ..)
    rw [pciDmaWrite_of_ok works] at moved
    dsimp only [Guest.log_memory] at moved
    exact .identify identifies moved

/-- An accepted read is carried out unless the bus fails. -/
theorem carriedOut_read_iff (reads : cmd.opcode = nvmeCmdRead) (accepted : cmd.Accepted) :
    CarriedOut dma s g cmd ↔
      (pciDmaWrite dma (g.log (.mark (.command cmd))) cmd.prp1 (s.blocks cmd)).1 = .ok := by
  have small : cmd.lba.toNat + cmd.nlb.toNat ≤ 2048 := accepted
  have passed := mt (cmd.rejects_iff (by omega)).mp (not_not.mpr accepted)
  have switched := nvmeTransfer_reading dma s (g.log (.mark (.command cmd))) reads passed
  rw [s.blocks_eq accepted] at switched ⊢
  constructor
  · intro carried
    cases carried with
    | identify opcode => exact absurd (reads.symm.trans opcode) (by decide)
    | read opcode inside moved =>
        have event := moved.transfer switched (pciDmaWrite_trace ..)
        simpa using event
    | write opcode => exact absurd (reads.symm.trans opcode) (by decide)
  · intro works
    rw [pciDmaWrite_of_ok ((pciDmaWrite_ok_iff ..).mp works)] at switched
    have moved := moves_of_transfer switched rfl
    exact .read reads accepted moved

/-- An accepted write is carried out unless the bus fails. -/
theorem carriedOut_write_iff (writes : cmd.opcode = nvmeCmdWrite) (accepted : cmd.Accepted) :
    CarriedOut dma s g cmd ↔
      (pciDmaRead dma (g.log (.mark (.command cmd))) cmd.prp1 (s.blocks cmd)).1 = .ok := by
  have small : cmd.lba.toNat + cmd.nlb.toNat ≤ 2048 := accepted
  have passed := mt (cmd.rejects_iff (by omega)).mp (not_not.mpr accepted)
  have switched := nvmeTransfer_writing dma s (g.log (.mark (.command cmd))) writes passed
  constructor
  · intro carried
    cases carried with
    | identify opcode => exact absurd (writes.symm.trans opcode) (by decide)
    | read opcode => exact absurd (writes.symm.trans opcode) (by decide)
    | write opcode inside moved stored =>
        have event := moved.transfer switched (pciDmaRead_trace ..)
        simp only [List.cons.injEq, and_true, Event.dmaRead.injEq, true_and] at event
        exact event.2
  · intro works
    have arrives := (pciDmaRead_ok_iff ..).mp works
    have performed := nvmeTransfer_write (s := s) writes accepted
      (by rwa [EduNvmeState.length_blocks, cmd.length_eq] at arrives)
    rw [pciDmaRead_of_ok arrives, EduNvmeState.length_blocks, cmd.length_eq] at switched
    rw [switched] at performed
    have moved := moves_of_transfer switched rfl
    obtain ⟨-, device, -, -⟩ := eduNvmeProcessCmd_of_transfer dma s g cmd switched
    refine .write writes accepted moved ?_
    rw [device, advanceCqTail_eq]
    exact performed

end Opcodes

/-- The command is an identify without an address, and nothing moved between the start of its
processing and its completion. -/
def Skipped (dma : Dma NvmeMark) (s : EduNvmeState) (g : Guest NvmeMark) (cmd : NvmeCmd) : Prop :=
  cmd.opcode = nvmeCmdIdentify ∧ cmd.prp1 = 0 ∧
    ∃ cqe posted, (eduNvmeProcessCmd dma s g cmd).2.trace =
      g.trace ++ ([.mark (.command cmd), .mark (.completion s.cqeAddr cqe),
        .dmaWrite s.cqeAddr cqe.encode posted] ++ s.notices)

section Status

variable {dma : Dma NvmeMark} {s : EduNvmeState} {g : Guest NvmeMark} {cmd : NvmeCmd}

theorem skipped_iff : Skipped dma s g cmd ↔ cmd.opcode = nvmeCmdIdentify ∧ cmd.prp1 = 0 := by
  constructor
  · intro ⟨identifies, unaddressed, _⟩
    exact ⟨identifies, unaddressed⟩
  · intro ⟨identifies, unaddressed⟩
    have switched := nvmeTransfer_identify dma s (g.log (.mark (.command cmd))) identifies
    rw [if_neg (not_not.mpr unaddressed)] at switched
    obtain ⟨posted, -, logged, -⟩ := eduNvmeProcessCmd_of_transfer dma s g cmd switched
    refine ⟨identifies, unaddressed, s.completionOf cmd 0, posted, ?_⟩
    rw [logged, Guest.log_trace, List.append_assoc]
    rfl

/-- The switch reports success to every identify, and to the reads and writes it carries out. -/
theorem nvmeTransfer_success_iff (bounded : cmd.lba.toNat + cmd.nlb.toNat < 2 ^ 64) :
    (nvmeTransfer dma s (g.log (.mark (.command cmd))) cmd).1.setWidth 8 = 0#8 ↔
      CarriedOut dma s g cmd ∨ cmd.opcode = nvmeCmdIdentify := by
  have range : ¬ (0x8002 : BitVec 16).setWidth 8 = 0#8 := by decide
  have unknown : ¬ (0x0001 : BitVec 16).setWidth 8 = 0#8 := by decide
  by_cases identifies : cmd.opcode = nvmeCmdIdentify
  · rw [nvmeTransfer_identify _ _ _ identifies]
    split <;> simp [identifies]
  · rw [or_iff_left identifies]
    by_cases moves : cmd.opcode = nvmeCmdRead ∨ cmd.opcode = nvmeCmdWrite
    · by_cases accepted : cmd.Accepted
      · have passed := mt (cmd.rejects_iff (by omega)).mp (not_not.mpr accepted)
        rcases moves with reads | writes
        · rw [carriedOut_read_iff reads accepted, nvmeTransfer_reading _ _ _ reads passed]
          split <;> simp [*]
        · rw [carriedOut_write_iff writes accepted, nvmeTransfer_writing _ _ _ writes passed]
          split <;> simp [*]
      · rw [nvmeTransfer_rejected moves (by omega) accepted]
        refine iff_of_false range ?_
        intro carried
        cases carried with
        | identify opcode => exact identifies opcode
        | read _ inside => exact accepted inside
        | write _ inside => exact accepted inside
    · obtain ⟨reads, writes⟩ := not_or.mp moves
      rw [nvmeTransfer_unknown _ _ _ identifies reads writes]
      refine iff_of_false unknown ?_
      intro carried
      cases carried with
      | identify opcode => exact identifies opcode
      | read opcode => exact reads opcode
      | write opcode => exact writes opcode

end Status

/-- The status tells whether the data of a command moved, and an identify without an address
succeeds without moving any. -/
theorem nvmeStatus_truthful (dma : Dma NvmeMark) (s : EduNvmeState) (g : Guest NvmeMark)
    (cmd : NvmeCmd) (bounded : cmd.lba.toNat + cmd.nlb.toNat < 2 ^ 64)
    (delivered : cmd.opcode = nvmeCmdIdentify → cmd.prp1 ≠ 0 →
      dma.writeFault (g.log (.mark (.command cmd))).trace cmd.prp1 4096 = none) :
    (∃ cqe, Completes dma s g cmd cqe) ∧
      ∀ cqe, Completes dma s g cmd cqe →
        (cqe.code = 0 ↔ CarriedOut dma s g cmd ∨ Skipped dma s g cmd) := by
  refine ⟨⟨_, completes_iff.mpr rfl⟩, ?_⟩
  intro cqe completes
  rw [completes.code, skipped_iff]
  refine (nvmeTransfer_success_iff bounded).trans (or_congr_right' ?_)
  intro undelivered
  constructor
  · intro identifies
    refine ⟨identifies, by_contra fun addressed => undelivered ?_⟩
    exact (carriedOut_identify_iff identifies).mpr ⟨addressed, delivered identifies addressed⟩
  · intro skipped
    exact skipped.1

/-- A read of the first block, over a bus that puts it down. -/
theorem nvmeStatus_truthful_read :
    let dma : Dma NvmeMark := DmaPattern.reliable.dma fun _ _ => 0
    let s := EduNvmeState.realized ⟨true⟩ fun _ => 0
    let g : Guest NvmeMark := ⟨fun _ => 0, []⟩
    let cmd : NvmeCmd := { NvmeCmd.decode [] with opcode := nvmeCmdRead, prp1 := 0x1000 }
    ∃ cqe, Completes dma s g cmd cqe ∧ cqe.code = 0 ∧
      (CarriedOut dma s g cmd ∨ Skipped dma s g cmd) := by
  intro dma s g cmd
  obtain ⟨⟨cqe, completes⟩, truthful⟩ := nvmeStatus_truthful dma s g cmd (by decide)
    fun identifies => absurd identifies (by decide)
  have code : cqe.code = 0 := by
    rw [completes.code]
    decide +kernel
  exact ⟨cqe, completes, code, (truthful cqe completes).mp code⟩

/-- The identify data does not arrive, and the status says that it did. -/
theorem nvmeStatus_untruthful :
    let dma : Dma NvmeMark := (DmaPattern.mk (fun _ _ => none)
      fun _ length => if length = 4096 then some fun _ => false else none).dma fun _ _ => 0
    let s := EduNvmeState.realized ⟨true⟩ fun _ => 0
    let g : Guest NvmeMark := ⟨fun _ => 0, []⟩
    let unaddressed : NvmeCmd := { NvmeCmd.decode [] with opcode := nvmeCmdIdentify }
    let undelivered : NvmeCmd := { unaddressed with prp1 := 0x1000 }
    (∃ cqe, Completes dma s g unaddressed cqe ∧
      ¬ (cqe.code = 0 ↔ CarriedOut dma s g unaddressed)) ∧
    ∃ cqe, Completes dma s g undelivered cqe ∧
      ¬ (cqe.code = 0 ↔ CarriedOut dma s g undelivered) := by
  intro dma s g unaddressed undelivered
  have code (cmd : NvmeCmd) (identifies : cmd.opcode = nvmeCmdIdentify)
      (bounded : cmd.lba.toNat + cmd.nlb.toNat < 2 ^ 64) (cqe : NvmeCqe)
      (completes : Completes dma s g cmd cqe) : cqe.code = 0 := by
    rw [completes.code]
    exact (nvmeTransfer_success_iff bounded).mpr (.inr identifies)
  refine ⟨⟨_, completes_iff.mpr rfl, fun truthful => ?_⟩, ⟨_, completes_iff.mpr rfl, fun truthful => ?_⟩⟩
  · have carried := truthful.mp (code _ rfl (by decide) _ (completes_iff.mpr rfl))
    exact ((carriedOut_identify_iff rfl).mp carried).1 rfl
  · have carried := truthful.mp (code _ rfl (by decide) _ (completes_iff.mpr rfl))
    exact absurd ((carriedOut_identify_iff rfl).mp carried).2 (by simp [dma])

end EduDevices
