import EduDevices.Library.CircularQueue
import EduDevices.Construction.Nvme

namespace EduDevices

open CircularQueue (slotAt)

/-- The queue sizes that the attributes register encodes as zero-based fields. -/
def sqSizeOf (aqa : BitVec 32) : Nat := (aqa &&& (0xFFF : BitVec 32)).toNat + 1

def cqSizeOf (aqa : BitVec 32) : Nat := (aqa >>> 16).toNat + 1

theorem sqSizeOf_le (aqa : BitVec 32) : sqSizeOf aqa ≤ 4096 := by
  have masked : (aqa &&& (0xFFF : BitVec 32)).toNat ≤ 4095 := by
    rw [BitVec.toNat_and]
    exact Nat.and_le_right
  exact Nat.succ_le_succ masked

theorem cqSizeOf_le (aqa : BitVec 32) : cqSizeOf aqa ≤ 65536 := by
  have shifted : (aqa >>> 16).toNat < 65536 := by
    rw [BitVec.toNat_ushiftRight, Nat.shiftRight_eq_div_pow]
    have := aqa.isLt
    omega
  exact shifted

/-- The local size of the submission queue loop does not wrap. -/
theorem toNat_sqSize (aqa : BitVec 32) :
    (((aqa &&& (0xFFF : BitVec 32)) + 1).setWidth 16).toNat = sqSizeOf aqa := by
  have bounded := sqSizeOf_le aqa
  unfold sqSizeOf at bounded ⊢
  rw [BitVec.toNat_setWidth, BitVec.toNat_add]
  have one : (1 : BitVec 32).toNat = 1 := rfl
  omega

/-- The entries of a queue stand at the slots that a 16-bit index selects. -/
theorem slotAt_index (base : Address) (stride size position : Nat) (index : BitVec 16)
    (slot : index.toNat = position % size) :
    base + index.setWidth 64 * BitVec.ofNat 64 stride = slotAt base stride size position := by
  rw [slotAt, ← slot, Nat.mul_comm, BitVec.ofNat_mul, BitVec.ofNat_toNat]

/-- Stepping an index that is below a bound, and resetting it at the bound, counts modulo. -/
theorem succ_mod {index size : Nat} (inside : index < size) :
    (index + 1) % size = if size ≤ index + 1 then 0 else index + 1 := by
  split
  next last =>
    rw [show index + 1 = size by omega, Nat.mod_self]
  next before => exact Nat.mod_eq_of_lt (by omega)

section Advance

variable (s : EduNvmeState)

/-- Advancing a tail moves the tail and the phase only. -/
theorem advanceCqTail_eq :
    advanceCqTail s =
      { s with cqTail := (advanceCqTail s).cqTail, cqPhase := (advanceCqTail s).cqPhase } := by
  unfold advanceCqTail
  dsimp only
  split <;> rfl

theorem advanceSqHead_eq (sqSize : BitVec 16) :
    advanceSqHead sqSize s = { s with sqHead := (advanceSqHead sqSize s).sqHead } := by
  unfold advanceSqHead
  dsimp only
  split <;> rfl

/-- The comparison of the stepped tail with the size is exact. -/
theorem cqTail_wraps : (s.cqTail + 1).setWidth 32 ≥ (s.aqa >>> 16) + 1 ↔
    cqSizeOf s.aqa ≤ (s.cqTail + 1).toNat := by
  have bounded := cqSizeOf_le s.aqa
  have size : ((s.aqa >>> 16) + 1).toNat = cqSizeOf s.aqa := by
    unfold cqSizeOf at bounded ⊢
    have one : (1 : BitVec 32).toNat = 1 := rfl
    rw [BitVec.toNat_add]
    omega
  rw [ge_iff_le, BitVec.le_def, size, BitVec.toNat_setWidth_of_le (by decide)]

/-- The phase flips at the wrap, but not in a queue of `2 ^ 16` slots, whose tail has wrapped before it
is compared. -/
theorem advanceCqTail_wrap (inside : s.cqTail.toNat < cqSizeOf s.aqa) :
    advanceCqTail s =
      if cqSizeOf s.aqa ≠ 65536 ∧ s.cqTail.toNat + 1 = cqSizeOf s.aqa then
        { s with cqTail := 0, cqPhase := s.cqPhase ^^^ 1 }
      else { s with cqTail := s.cqTail + 1 } := by
  have bounded := cqSizeOf_le s.aqa
  have next : (s.cqTail + 1).toNat = (s.cqTail.toNat + 1) % 65536 := BitVec.toNat_add ..
  have wraps := cqTail_wraps s
  unfold advanceCqTail
  dsimp only
  split
  next last =>
    have reached := wraps.mp last
    exact (if_pos (by omega)).symm
  next before =>
    have short := mt wraps.mpr before
    exact (if_neg (by omega)).symm

/-- The tail counts modulo the size, although a queue of `2 ^ 16` slots wraps in the index. -/
theorem toNat_advanceCqTail (inside : s.cqTail.toNat < cqSizeOf s.aqa) :
    (advanceCqTail s).cqTail.toNat = (s.cqTail.toNat + 1) % cqSizeOf s.aqa := by
  have bounded := cqSizeOf_le s.aqa
  have next : (s.cqTail + 1).toNat = (s.cqTail.toNat + 1) % 65536 := BitVec.toNat_add ..
  rw [advanceCqTail_wrap s inside]
  split
  next last =>
    rw [last.2, Nat.mod_self]
    rfl
  next before =>
    rw [succ_mod inside]
    show (s.cqTail + 1).toNat = _
    split <;> omega

theorem toNat_advanceSqHead (sqSize : BitVec 16) (inside : s.sqHead.toNat < sqSize.toNat) :
    (advanceSqHead sqSize s).sqHead.toNat = (s.sqHead.toNat + 1) % sqSize.toNat := by
  have bounded := sqSize.isLt
  have next : (s.sqHead + 1).toNat = (s.sqHead.toNat + 1) % 65536 := BitVec.toNat_add ..
  rw [succ_mod inside]
  unfold advanceSqHead
  dsimp only
  split
  next last =>
    have reached : sqSize.toNat ≤ (s.sqHead + 1).toNat := last
    exact (if_pos (by omega)).symm
  next before =>
    have short : ¬ sqSize.toNat ≤ (s.sqHead + 1).toNat := before
    show (s.sqHead + 1).toNat = _
    split <;> omega

end Advance

/-- A command moves its data in at most one transfer, to or from its first PRP entry. -/
inductive DataMove (cmd : NvmeCmd) : List (Event NvmeMark) → Prop where
  | none : DataMove cmd []
  | toHost (data : List Byte) (result : MemTxResult) :
      DataMove cmd [.dmaWrite cmd.prp1 data result]
  | fromHost (data : List Byte) (result : MemTxResult) :
      DataMove cmd [.dmaRead cmd.prp1 data result]

theorem DataMove.unmarked {cmd : NvmeCmd} {moved : List (Event NvmeMark)}
    (move : DataMove cmd moved) : moved.filterMap Event.marked = [] := by
  cases move <;> rfl

/-- The part of the storage that a read or a write hands to its transfer. -/
def NvmeCmd.offset (cmd : NvmeCmd) : Address := cmd.lba * blockSize

def NvmeCmd.length (cmd : NvmeCmd) : Nat := (cmd.nlb * blockSize.setWidth 32).toNat

def EduNvmeState.blocks (s : EduNvmeState) (cmd : NvmeCmd) : List Byte :=
  s.storage.read cmd.offset cmd.length

@[simp] theorem EduNvmeState.length_blocks (s : EduNvmeState) (cmd : NvmeCmd) :
    (s.blocks cmd).length = cmd.length := Memory.length_read ..

/-- The check of the range as the switch makes it. -/
abbrev NvmeCmd.Rejected (cmd : NvmeCmd) : Prop := cmd.lba + cmd.nlb.setWidth 64 > numBlocks

/-- The branches of the switch on the opcode, with the check of the range. -/
inductive NvmeCmd.Branch (cmd : NvmeCmd) : Prop where
  | identify (identifies : cmd.opcode = nvmeCmdIdentify)
  | refused (moves : cmd.opcode = nvmeCmdRead ∨ cmd.opcode = nvmeCmdWrite) (rejected : cmd.Rejected)
  | reading (reads : cmd.opcode = nvmeCmdRead) (passed : ¬ cmd.Rejected)
  | writing (writes : cmd.opcode = nvmeCmdWrite) (passed : ¬ cmd.Rejected)
  | unknown (identifies : cmd.opcode ≠ nvmeCmdIdentify) (reads : cmd.opcode ≠ nvmeCmdRead)
      (writes : cmd.opcode ≠ nvmeCmdWrite)

theorem NvmeCmd.branch (cmd : NvmeCmd) : cmd.Branch := by
  by_cases identifies : cmd.opcode = nvmeCmdIdentify
  · exact .identify identifies
  by_cases moves : cmd.opcode = nvmeCmdRead ∨ cmd.opcode = nvmeCmdWrite
  · by_cases rejected : cmd.Rejected
    · exact .refused moves rejected
    · rcases moves with reads | writes
      · exact .reading reads rejected
      · exact .writing writes rejected
  · obtain ⟨reads, writes⟩ := not_or.mp moves
    exact .unknown identifies reads writes

section Switch

variable (dma : Dma NvmeMark) (s : EduNvmeState) (g : Guest NvmeMark) {cmd : NvmeCmd}

theorem nvmeTransfer_identify (identifies : cmd.opcode = nvmeCmdIdentify) :
    nvmeTransfer dma s g cmd =
      if cmd.prp1 ≠ 0 then (0, s, (pciDmaWrite dma g cmd.prp1 identifyData).2) else (0, s, g) := by
  unfold nvmeTransfer
  rw [identifies]
  rfl

theorem nvmeTransfer_refused (moves : cmd.opcode = nvmeCmdRead ∨ cmd.opcode = nvmeCmdWrite)
    (rejected : cmd.Rejected) : nvmeTransfer dma s g cmd = (0x8002, s, g) := by
  unfold nvmeTransfer
  rcases moves with reads | writes
  · rw [reads]
    exact if_pos rejected
  · rw [writes]
    exact if_pos rejected

theorem nvmeTransfer_reading (reads : cmd.opcode = nvmeCmdRead) (passed : ¬ cmd.Rejected) :
    nvmeTransfer dma s g cmd =
      (if (pciDmaWrite dma g cmd.prp1 (s.blocks cmd)).1 = .ok then 0 else 0x8004, s,
        (pciDmaWrite dma g cmd.prp1 (s.blocks cmd)).2) := by
  unfold nvmeTransfer
  rw [reads]
  exact if_neg passed

theorem nvmeTransfer_writing (writes : cmd.opcode = nvmeCmdWrite) (passed : ¬ cmd.Rejected) :
    nvmeTransfer dma s g cmd =
      (if (pciDmaRead dma g cmd.prp1 (s.blocks cmd)).1 = .ok then 0 else 0x8004,
        { s with
          storage := s.storage.write cmd.offset (pciDmaRead dma g cmd.prp1 (s.blocks cmd)).2.1 },
        (pciDmaRead dma g cmd.prp1 (s.blocks cmd)).2.2) := by
  unfold nvmeTransfer
  rw [writes]
  exact if_neg passed

theorem nvmeTransfer_unknown (identifies : cmd.opcode ≠ nvmeCmdIdentify)
    (reads : cmd.opcode ≠ nvmeCmdRead) (writes : cmd.opcode ≠ nvmeCmdWrite) :
    nvmeTransfer dma s g cmd = (0x0001, s, g) := by
  unfold nvmeTransfer
  dsimp only
  split
  · contradiction
  · contradiction
  · contradiction
  · rfl

end Switch

section Command

variable (dma : Dma NvmeMark) (s : EduNvmeState) (g : Guest NvmeMark) (cmd : NvmeCmd)

/-- The switch on the opcode changes nothing of the device but its storage. -/
theorem nvmeTransfer_device :
    ∃ storage, (nvmeTransfer dma s g cmd).2.1 = { s with storage } := by
  cases cmd.branch with
  | identify identifies =>
      rw [nvmeTransfer_identify _ _ _ identifies]
      split <;> exact ⟨s.storage, rfl⟩
  | refused moves rejected =>
      rw [nvmeTransfer_refused _ _ _ moves rejected]
      exact ⟨s.storage, rfl⟩
  | reading reads passed =>
      rw [nvmeTransfer_reading _ _ _ reads passed]
      exact ⟨s.storage, rfl⟩
  | writing writes passed =>
      rw [nvmeTransfer_writing _ _ _ writes passed]
      exact ⟨_, rfl⟩
  | unknown identifies reads writes =>
      rw [nvmeTransfer_unknown _ _ _ identifies reads writes]
      exact ⟨s.storage, rfl⟩

theorem nvmeTransfer_trace :
    ∃ moved, DataMove cmd moved ∧ (nvmeTransfer dma s g cmd).2.2.trace = g.trace ++ moved := by
  have still : ∃ moved, DataMove cmd moved ∧ g.trace = g.trace ++ moved :=
    ⟨[], .none, (List.append_nil _).symm⟩
  cases cmd.branch with
  | identify identifies =>
      rw [nvmeTransfer_identify _ _ _ identifies]
      split
      · exact ⟨_, .toHost _ _, pciDmaWrite_trace ..⟩
      · exact still
  | refused moves rejected =>
      rw [nvmeTransfer_refused _ _ _ moves rejected]
      exact still
  | reading reads passed =>
      rw [nvmeTransfer_reading _ _ _ reads passed]
      exact ⟨_, .toHost _ _, pciDmaWrite_trace ..⟩
  | writing writes passed =>
      rw [nvmeTransfer_writing _ _ _ writes passed]
      exact ⟨_, .fromHost _ _, pciDmaRead_trace ..⟩
  | unknown identifies reads writes =>
      rw [nvmeTransfer_unknown _ _ _ identifies reads writes]
      exact still

/-- No status of a command uses the bit of the phase. -/
theorem nvmeTransfer_status : (nvmeTransfer dma s g cmd).1.getLsbD 8 = false := by
  have success : (0 : BitVec 16).getLsbD 8 = false := by decide
  have opcode : (0x0001 : BitVec 16).getLsbD 8 = false := by decide
  have range : (0x8002 : BitVec 16).getLsbD 8 = false := by decide
  have transfer : (0x8004 : BitVec 16).getLsbD 8 = false := by decide
  cases cmd.branch with
  | identify identifies =>
      rw [nvmeTransfer_identify _ _ _ identifies]
      split <;> exact success
  | refused moves rejected =>
      rw [nvmeTransfer_refused _ _ _ moves rejected]
      exact range
  | reading reads passed =>
      rw [nvmeTransfer_reading _ _ _ reads passed]
      split <;> assumption
  | writing writes passed =>
      rw [nvmeTransfer_writing _ _ _ writes passed]
      split <;> assumption
  | unknown identifies reads writes =>
      rw [nvmeTransfer_unknown _ _ _ identifies reads writes]
      exact opcode

/-- The slot for the next completion. -/
def EduNvmeState.cqeAddr (s : EduNvmeState) : Address := s.acq + s.cqTail.setWidth 64 * 16

def EduNvmeState.completionOf (s : EduNvmeState) (cmd : NvmeCmd) (status : BitVec 16) : NvmeCqe where
  result := 0
  rsvd := 0
  sqHead := s.sqHead
  sqId := 0
  cid := cmd.cid
  status := status ||| (s.cqPhase.setWidth 16 <<< 8)

/-- The interrupt that follows each completion. -/
def EduNvmeState.notices (s : EduNvmeState) : List (Event NvmeMark) :=
  if s.parentObj.msixEnabled then [.msixNotify 0] else []

/-- What follows the switch: the completion, then the interrupt. -/
def EduNvmeState.complete (dma : Dma NvmeMark) (s : EduNvmeState) (guest : Guest NvmeMark)
    (cqe : NvmeCqe) : Guest NvmeMark :=
  let posted := (pciDmaWrite dma (guest.log (.mark (.completion s.cqeAddr cqe))) s.cqeAddr
    cqe.encode).2
  if s.parentObj.msixEnabled then msixNotify posted 0 else posted

theorem EduNvmeState.complete_trace (guest : Guest NvmeMark) (cqe : NvmeCqe) :
    ∃ posted, (s.complete dma guest cqe).trace = guest.trace ++
      ([.mark (.completion s.cqeAddr cqe), .dmaWrite s.cqeAddr cqe.encode posted] ++ s.notices) := by
  refine ⟨(pciDmaWrite dma (guest.log (.mark (.completion s.cqeAddr cqe))) s.cqeAddr cqe.encode).1, ?_⟩
  unfold EduNvmeState.complete EduNvmeState.notices
  dsimp only
  split
  · rw [msixNotify, Guest.log_trace, pciDmaWrite_trace, Guest.log_trace, List.append_assoc,
      List.append_assoc]
    rfl
  · rw [pciDmaWrite_trace, Guest.log_trace, List.append_assoc]
    rfl

theorem EduNvmeState.complete_outside (guest : Guest NvmeMark) (cqe : NvmeCqe) (address : Address)
    (outside : ¬ Within s.cqeAddr 16 address) :
    (s.complete dma guest cqe).memory address = guest.memory address := by
  have spared := pciDmaWrite_outside dma (guest.log (.mark (.completion s.cqeAddr cqe))) s.cqeAddr
    cqe.encode address (by rwa [NvmeCqe.length_encode])
  unfold EduNvmeState.complete
  dsimp only
  split <;> exact spared

/-- The switch gives the device up to the completion queue, and the status to complete with. -/
theorem eduNvmeProcessCmd_eq :
    eduNvmeProcessCmd dma s g cmd =
      (advanceCqTail (nvmeTransfer dma s (g.log (.mark (.command cmd))) cmd).2.1,
        s.complete dma (nvmeTransfer dma s (g.log (.mark (.command cmd))) cmd).2.2
          (s.completionOf cmd (nvmeTransfer dma s (g.log (.mark (.command cmd))) cmd).1)) := by
  obtain ⟨storage, device⟩ := nvmeTransfer_device dma s (g.log (.mark (.command cmd))) cmd
  unfold eduNvmeProcessCmd
  dsimp only
  rw [device, advanceCqTail_eq]
  rfl

/-- After the switch a command posts the completion with its status and notifies the host. -/
theorem eduNvmeProcessCmd_of_transfer {status : BitVec 16} {storage : Memory}
    {guest : Guest NvmeMark}
    (moved : nvmeTransfer dma s (g.log (.mark (.command cmd))) cmd =
      (status, { s with storage }, guest)) :
    ∃ posted, (eduNvmeProcessCmd dma s g cmd).1 = advanceCqTail { s with storage } ∧
      (eduNvmeProcessCmd dma s g cmd).2.trace = guest.trace ++
        ([.mark (.completion s.cqeAddr (s.completionOf cmd status)),
          .dmaWrite s.cqeAddr (s.completionOf cmd status).encode posted] ++ s.notices) ∧
      ∀ address, ¬ Within s.cqeAddr 16 address →
        (eduNvmeProcessCmd dma s g cmd).2.memory address = guest.memory address := by
  rw [eduNvmeProcessCmd_eq, moved]
  obtain ⟨posted, logged⟩ := s.complete_trace dma guest (s.completionOf cmd status)
  exact ⟨posted, rfl, logged, s.complete_outside dma guest _⟩

/-- Processing a command leaves the storage as the switch leaves it. -/
theorem eduNvmeProcessCmd_storage :
    (eduNvmeProcessCmd dma s g cmd).1.storage =
      (nvmeTransfer dma s (g.log (.mark (.command cmd))) cmd).2.1.storage := by
  rw [eduNvmeProcessCmd_eq, advanceCqTail_eq]

/-- The completion follows what the switch did. -/
theorem eduNvmeProcessCmd_trace {moved : List (Event NvmeMark)}
    (grown : (nvmeTransfer dma s (g.log (.mark (.command cmd))) cmd).2.2.trace =
      (g.log (.mark (.command cmd))).trace ++ moved) :
    let cqe := s.completionOf cmd (nvmeTransfer dma s (g.log (.mark (.command cmd))) cmd).1
    ∃ posted, (eduNvmeProcessCmd dma s g cmd).2.trace =
      g.trace ++ (.mark (.command cmd) :: moved ++
        [.mark (.completion s.cqeAddr cqe), .dmaWrite s.cqeAddr cqe.encode posted] ++ s.notices) := by
  intro cqe
  obtain ⟨posted, logged⟩ := s.complete_trace dma
    (nvmeTransfer dma s (g.log (.mark (.command cmd))) cmd).2.2 cqe
  refine ⟨posted, ?_⟩
  rw [eduNvmeProcessCmd_eq, logged, grown, Guest.log_trace]
  simp only [List.append_assoc, List.cons_append, List.nil_append]

/-- Processing a command moves its data, then posts one completion, then notifies the host. -/
theorem eduNvmeProcessCmd_spec :
    ∃ storage moved status posted, DataMove cmd moved ∧ status.getLsbD 8 = false ∧
      (eduNvmeProcessCmd dma s g cmd).1 = advanceCqTail { s with storage } ∧
      (eduNvmeProcessCmd dma s g cmd).2.trace =
        g.trace ++ (.mark (.command cmd) :: moved ++
          [.mark (.completion s.cqeAddr (s.completionOf cmd status)),
            .dmaWrite s.cqeAddr (s.completionOf cmd status).encode posted] ++ s.notices) := by
  obtain ⟨storage, device⟩ := nvmeTransfer_device dma s (g.log (.mark (.command cmd))) cmd
  obtain ⟨moved, move, trace⟩ := nvmeTransfer_trace dma s (g.log (.mark (.command cmd))) cmd
  obtain ⟨posted, logged⟩ := eduNvmeProcessCmd_trace dma s g cmd trace
  refine ⟨storage, moved, _, posted, move, nvmeTransfer_status dma s _ cmd, ?_, logged⟩
  rw [eduNvmeProcessCmd_eq, device]

end Command

/-- The slot of the next submission entry. -/
def EduNvmeState.sqeAddr (s : EduNvmeState) : Address := s.asq + s.sqHead.setWidth 64 * 64

/-- A turn fetches the entry at the head and processes what the fetch left as a command. -/
theorem sqTurn_eq (dma : Dma NvmeMark) (sqSize : BitVec 16) (cmd : List Byte) (s : EduNvmeState)
    (g : Guest NvmeMark) :
    let fetched := pciDmaRead dma g s.sqeAddr cmd
    let processed := eduNvmeProcessCmd dma s fetched.2.2 (NvmeCmd.decode fetched.2.1)
    sqTurn dma sqSize cmd s g = (fetched.2.1, advanceSqHead sqSize processed.1, processed.2) := rfl

/-- A turn moves the data of its command, posts the completion and notifies the host. -/
theorem sqTurn_spec (dma : Dma NvmeMark) (sqSize : BitVec 16) (cmd : List Byte) (s : EduNvmeState)
    (g : Guest NvmeMark) :
    ∃ storage moved status posted bytes fetch,
      (fetch, bytes) = ((pciDmaRead dma g s.sqeAddr cmd).1, (pciDmaRead dma g s.sqeAddr cmd).2.1) ∧
      DataMove (NvmeCmd.decode bytes) moved ∧ status.getLsbD 8 = false ∧
      (sqTurn dma sqSize cmd s g).1 = bytes ∧
      (sqTurn dma sqSize cmd s g).2.1 = advanceSqHead sqSize (advanceCqTail { s with storage }) ∧
      (sqTurn dma sqSize cmd s g).2.2.trace = g.trace ++ ([.dmaRead s.sqeAddr bytes fetch,
        .mark (.command (NvmeCmd.decode bytes))] ++ moved ++
        [.mark (.completion s.cqeAddr (s.completionOf (NvmeCmd.decode bytes) status)),
          .dmaWrite s.cqeAddr (s.completionOf (NvmeCmd.decode bytes) status).encode posted] ++
        s.notices) := by
  have logged := pciDmaRead_trace dma g s.sqeAddr cmd
  have turn := sqTurn_eq dma sqSize cmd s g
  generalize pciDmaRead dma g s.sqeAddr cmd = outcome at logged turn
  obtain ⟨fetch, bytes, guest⟩ := outcome
  obtain ⟨storage, moved, status, posted, move, clear, device, trace⟩ :=
    eduNvmeProcessCmd_spec dma s guest (NvmeCmd.decode bytes)
  dsimp only at logged turn
  refine ⟨storage, moved, status, posted, bytes, fetch, rfl, move, clear, ?_, ?_, ?_⟩
  · rw [turn]
  · rw [turn, device]
  · rw [turn, trace, logged]
    simp

theorem EduNvmeState.notices_unmarked (s : EduNvmeState) :
    s.notices.filterMap Event.marked = [] := by
  unfold notices
  split <;> rfl

/-- Of what a turn does, its command and its completion are marked. -/
theorem turn_marked {cmd : NvmeCmd} {moved : List (Event NvmeMark)} (move : DataMove cmd moved)
    (s : EduNvmeState) (sqe slot : Address) (bytes data : List Byte) (fetch posted : MemTxResult)
    (cqe : NvmeCqe) :
    List.filterMap Event.marked ([.dmaRead sqe bytes fetch, .mark (.command cmd)] ++ moved ++
      [.mark (.completion slot cqe), .dmaWrite slot data posted] ++ s.notices) =
        [.command cmd, .completion slot cqe] := by
  rw [List.filterMap_append, List.filterMap_append, List.filterMap_append, move.unmarked,
    s.notices_unmarked]
  rfl

/-- The first turns of the loop, fewer when the head meets the tail before. -/
def sqTurns (dma : Dma NvmeMark) (sqSize : BitVec 16) :
    Nat → List Byte → EduNvmeState → Guest NvmeMark → EduNvmeState × Guest NvmeMark
  | 0, _, s, g => (s, g)
  | turns + 1, cmd, s, g =>
      if s.sqHead ≠ s.sqTail then
        let (cmd, s, g) := sqTurn dma sqSize cmd s g
        sqTurns dma sqSize turns cmd s g
      else (s, g)

/-- A loop that returns has taken all its turns. -/
theorem sqLoop_turns {dma : Dma NvmeMark} {sqSize : BitVec 16} {turns : Nat} {cmd : List Byte}
    {s : EduNvmeState} {g : Guest NvmeMark} {final : EduNvmeState × Guest NvmeMark}
    (returned : sqLoop dma sqSize turns cmd s g = .ok final) :
    sqTurns dma sqSize turns cmd s g = final := by
  induction turns generalizing cmd s g with
  | zero => cases returned
  | succ turns ih =>
      unfold sqLoop at returned
      unfold sqTurns
      split at returned
      · next pending => exact (if_pos pending).trans (ih returned)
      · next done => exact (if_neg done).trans (Except.ok.inj returned)

/-- The doorbell without its end: the first turns of its processing. -/
def rungTurns (dma : Dma NvmeMark) (turns : Nat) (s : EduNvmeState) (g : Guest NvmeMark)
    (val : BitVec 64) : EduNvmeState × Guest NvmeMark :=
  sqTurns dma (((s.aqa &&& (0xFFF : BitVec 32)) + 1).setWidth 16) turns (stackBuffer dma g 64)
    { s with sqTail := val.setWidth 16 } g

/-- The parts of the controller that place its next turn. -/
structure SameIndices (s next : EduNvmeState) : Prop where
  aqa : next.aqa = s.aqa
  sqHead : next.sqHead = s.sqHead
  cqTail : next.cqTail = s.cqTail
  cqPhase : next.cqPhase = s.cqPhase

/-- A write that returns starts the queues over, resizes them, serves a doorbell or moves nothing. -/
theorem nvmeAccess_cases {dma : Dma NvmeMark} {s : EduNvmeState} {g : Guest NvmeMark}
    {write : HostWrite} {next : EduNvmeState × Guest NvmeMark}
    (taken : nvmeAccess dma (s, g) write = .ok next) :
    ((write.addr = nvmeCc ∧ write.val.setWidth 64 &&& nvmeCcEn ≠ 0) ∧
      next.2 = g.rewrite write.host ∧ next.1.sqHead = 0 ∧ next.1.cqTail = 0) ∨
    (write.addr = nvmeAqa ∧
      next = ({ s with aqa := (write.val.setWidth 64).setWidth 32 }, g.rewrite write.host)) ∨
    (write.addr = nvmeSq0tdbl ∧
      next = rungTurns dma (2 ^ 16 + 1) s (g.rewrite write.host) (write.val.setWidth 64)) ∨
    (next.2 = g.rewrite write.host ∧ SameIndices s next.1) := by
  obtain ⟨host, addr, val⟩ := write
  unfold nvmeAccess eduNvmeWrite at taken
  dsimp only at taken
  split at taken
  · split at taken
    · next enables =>
        obtain rfl := Except.ok.inj taken
        exact .inl ⟨⟨rfl, enables⟩, rfl, rfl, rfl⟩
    · obtain rfl := Except.ok.inj taken
      exact .inr (.inr (.inr ⟨rfl, rfl, rfl, rfl, rfl⟩))
  · obtain rfl := Except.ok.inj taken
    exact .inr (.inl ⟨rfl, rfl⟩)
  all_goals try
    obtain rfl := Except.ok.inj taken
    exact .inr (.inr (.inr ⟨rfl, rfl, rfl, rfl, rfl⟩))
  · unfold eduNvmeProcessSq at taken
    exact .inr (.inr (.inl ⟨rfl, (sqLoop_turns taken).symm⟩))

end EduDevices
