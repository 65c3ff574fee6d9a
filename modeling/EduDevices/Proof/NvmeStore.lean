import EduDevices.Library.BlockStore
import EduDevices.Library.Refinement
import EduDevices.Proof.NvmeDriver

namespace EduDevices

open Refinement

/-- What the host makes of the controller: a disk behind two pages of data. -/
abbrev NvmeStore := BlockStore Byte 2048 512 8192

/-- What the host prints of every identify command. -/
def eduIdentity : Identity where
  status := 0
  vendor := 0x1234
  serial := "EDU".toList.map CString.ofChar
  model := "EDU-NVME".toList.map CString.ofChar

namespace NvmeStore

/-- The host passes the low half of a block number only. -/
def block (lba : BitVec 64) : Nat := (lba.setWidth 32).toNat

def call (store : NvmeStore) : NvmeCall → NvmeReply × NvmeStore
  | .identify => (.identify (some eduIdentity), store.fill identifyData)
  | .writeData lba data =>
      let store := store.fill data
      if inside : block lba < 2048 then (.writeData true, store.save ⟨block lba, inside⟩)
      else (.writeData false, store)
  | .readData lba len =>
      let store := store.fill (List.replicate len 0)
      if inside : block lba < 2048 then
        let store := store.load ⟨block lba, inside⟩
        (.readData true (store.page.toList.take len), store)
      else (.readData false (store.page.toList.take len), store)

end NvmeStore

/-- A part of the identify data. -/
theorem part_identifyData {start count : Nat} (fits : start + count ≤ 4096) :
    (identifyData.drop start).take count = (List.range' start count).map identifyByte := by
  rw [identifyData, List.range_eq_range', ← List.map_drop, List.drop_range', ← List.map_take,
    List.take_range'_of_length_ge (by omega), Nat.zero_add, Nat.mul_one]

/-- The printed parts of the identify data. -/
theorem identity_identifyData :
    (⟨0, wordAt 16 identifyData 0, CString.characters ((identifyData.drop 4).take 20),
      CString.characters ((identifyData.drop 24).take 40)⟩ : Identity) = eduIdentity := by
  rw [wordAt, part_identifyData (by decide), part_identifyData (by decide),
    part_identifyData (by decide)]
  decide

/-- The data of a call fits in the pages that the host has for it. -/
def NvmeCall.Fits : NvmeCall → Prop
  | .identify => True
  | .writeData _ data => data.length ≤ 8192
  | .readData _ len => len ≤ 8192

instance : DecidablePred NvmeCall.Fits
  | .identify => inferInstanceAs (Decidable True)
  | .writeData _ data => inferInstanceAs (Decidable (data.length ≤ 8192))
  | .readData _ len => inferInstanceAs (Decidable (len ≤ 8192))

/-- The memory holds the page behind the queues. -/
def Paged (memory : Memory) (page : Vector Byte 8192) : Prop :=
  ∀ index (inside : index < 8192),
    memory (dataIova + BitVec.ofNat 64 index) = page.get ⟨index, inside⟩

section Page

variable {memory : Memory} {page : Vector Byte 8192} (paged : Paged memory page)

include paged

theorem Paged.write {data : List Byte} (fits : data.length ≤ 8192) :
    Paged (memory.write dataIova data) (overlay page data) := by
  intro index inside
  have shown : (overlay page data).get ⟨index, inside⟩ = data.getD index (page.get ⟨index, inside⟩) :=
    getElem_overlay page data index inside
  rw [shown]
  rcases Nat.lt_or_ge index data.length with written | behind
  · rw [Memory.write_inside memory dataIova data index written (by omega),
      List.getD_eq_getElem _ _ written]
  · rw [List.getD_eq_default _ _ behind, ← paged index inside]
    apply Memory.write_outside
    rw [Within, offset_add dataIova index (by omega)]
    omega

/-- The page stands as long as writes stay in the queues. -/
theorem Paged.queues {base : Address} {data : List Byte}
    (below : base.toNat + data.length ≤ 0x102000) : Paged (memory.write base data) page := by
  intro index inside
  rw [← paged index inside]
  apply Memory.write_outside
  unfold Within
  have page : dataIova = 0x102000 := rfl
  rw [page]
  bv_omega

theorem Paged.read {length : Nat} (fits : length ≤ 8192) :
    memory.read dataIova length = page.toList.take length := by
  apply List.ext_getElem
  · simp [fits]
  · intro index inside _
    have within : index < length := by simpa using inside
    rw [Memory.getElem_read, paged index (by omega), List.getElem_take, Vector.getElem_toList]
    rfl

end Page

/-- The controller is ready, and its storage and its pages hold what the store holds. -/
structure ServesStore (c : NvmeController) (store : NvmeStore) : Prop where
  ready : c.Ready
  disk : c.dev.device.disk = store.disk
  page : Paged c.dev.guest.memory store.page

/-- The command moves one block from or to the start of the page. -/
structure NvmeCmd.ForBlock (cmd : NvmeCmd) (opcode : BitVec 8) (block : Nat) : Prop where
  opcode : cmd.opcode = opcode
  prp1 : cmd.prp1 = dataIova
  lba : cmd.lba.toNat = block
  nlb : cmd.nlb.toNat = 1

/-- The host addresses the block that the store takes. -/
theorem sent_blockCmd (c : NvmeController) (opcode : BitVec 8) (lba : BitVec 64) :
    (c.sent (NvmeController.blockCmd opcode lba)).ForBlock opcode (NvmeStore.block lba) where
  opcode := rfl
  prp1 := rfl
  lba := by
    show ((lba.setWidth 32).setWidth 64 ||| (0#32).setWidth 64 <<< 32).toNat =
      (lba.setWidth 32).toNat
    simp
    omega
  nlb := by
    show (((0 : BitVec 32) &&& (0xFFFF : BitVec 32)) + 1).toNat = 1
    decide

theorem NvmeCmd.ForBlock.accepted_iff {cmd : NvmeCmd} {opcode : BitVec 8} {block : Nat}
    (names : cmd.ForBlock opcode block) : cmd.Accepted ↔ block < 2048 := by
  rw [NvmeCmd.Accepted, names.lba, names.nlb]
  omega

/-- The switch gives the status and leaves what the store holds. -/
structure Leaves (switched : BitVec 16 × EduNvmeState × Guest NvmeMark) (status : BitVec 16)
    (store : NvmeStore) : Prop where
  status : switched.1 = status
  disk : switched.2.1.disk = store.disk
  page : Paged switched.2.2.memory store.page

section Effects

variable {dma : Dma NvmeMark} {c : NvmeController} {store : NvmeStore} (serves : ServesStore c store)
  (mapped : Mapped dma dmaIova dmaSize)

include serves

theorem ServesStore.fill {data : List Byte} (fits : data.length ≤ 8192) :
    ServesStore { c with dev := c.dev.memcpy dataIova data } (store.fill data) := by
  obtain ⟨ready, disk, page⟩ := serves
  refine ⟨?_, ?_, ?_⟩
  · exact ⟨ready.aqa, ready.asq, ready.acq, ready.notifies, ready.sqHead, ready.cqTail,
      ready.sqInside, ready.cqInside, ready.vector, ready.drained⟩
  · rw [BlockStore.fill_disk]
    exact disk
  · exact page.write fits

/-- The doorbell leaves the disk alone. -/
theorem ServesStore.rung : c.rung.disk = store.disk := by
  rw [← serves.disk]
  unfold EduNvmeState.disk NvmeController.rung
  rfl

/-- The page stands while the device fetches the command. -/
theorem ServesStore.fetched (cmd : NvmeCmd) : Paged (c.fetched cmd).memory store.page := by
  apply serves.page.queues
  have slot := toNat_sqSlot c.sqTail
  have inside := serves.ready.sqInside
  rw [NvmeCmd.length_encode]
  show (sqIova + c.sqTail.setWidth 64 * 64).toNat + 64 ≤ 0x102000
  omega

theorem ServesStore.refused {cmd : NvmeCmd} {opcode : BitVec 8} {block : Nat}
    (names : (c.sent cmd).ForBlock opcode block)
    (moves : opcode = nvmeCmdRead ∨ opcode = nvmeCmdWrite) (beyond : ¬ block < 2048)
    (small : block < 2 ^ 32) : Leaves (c.switched dma cmd) 0x8002 store := by
  have bounded : (c.sent cmd).lba.toNat + (c.sent cmd).nlb.toNat ≤ 2 ^ 64 - 1 := by
    rw [names.lba, names.nlb]
    omega
  rw [← names.opcode] at moves
  rw [NvmeController.switched,
    nvmeTransfer_rejected moves bounded (mt names.accepted_iff.mp beyond)]
  refine ⟨rfl, serves.rung, ?_⟩
  dsimp only
  rw [Guest.log_memory]
  exact serves.fetched cmd

include mapped

theorem ServesStore.identified {cmd : NvmeCmd} (identifies : (c.sent cmd).opcode = nvmeCmdIdentify)
    (prp1 : (c.sent cmd).prp1 = dataIova) :
    Leaves (c.switched dma cmd) 0 (store.fill identifyData) := by
  have works := mapped.writes ((c.fetched cmd).log (.mark (.command (c.sent cmd)))).trace
    dataIova identifyData.length (by rw [length_identifyData]; decide)
  rw [NvmeController.switched, nvmeTransfer_identify _ _ _ identifies, prp1,
    if_pos (by decide), pciDmaWrite_of_ok works, Guest.log_memory]
  refine ⟨rfl, serves.rung.trans (store.fill_disk identifyData).symm, ?_⟩
  have short : identifyData.length ≤ 8192 := by rw [length_identifyData]; decide
  dsimp only
  rw [BlockStore.fill_page]
  exact (serves.fetched cmd).write short

theorem ServesStore.loaded {cmd : NvmeCmd} {block : Nat}
    (names : (c.sent cmd).ForBlock nvmeCmdRead block) (inside : block < 2048) :
    Leaves (c.switched dma cmd) 0 (store.load ⟨block, inside⟩) := by
  have accepted := names.accepted_iff.mpr inside
  have works := mapped.writes ((c.fetched cmd).log (.mark (.command (c.sent cmd)))).trace
    (c.sent cmd).prp1 ((c.sent cmd).nlb.toNat * 512)
    (by rw [names.prp1, names.nlb]; decide)
  have contents : c.rung.disk.contents _ _ accepted = List.ofFn (store.disk ⟨block, inside⟩) := by
    rw [Disk.contents_one _ names.nlb, serves.rung]
    congr
    exact names.lba
  rw [NvmeController.switched, nvmeTransfer_read names.opcode accepted works, contents, names.prp1,
    Guest.log_memory]
  refine ⟨rfl, serves.rung.trans (store.load_disk ⟨block, inside⟩).symm, ?_⟩
  have short : (List.ofFn (store.disk ⟨block, inside⟩)).length ≤ 8192 := by
    rw [List.length_ofFn]
    decide
  dsimp only
  rw [BlockStore.load_page]
  exact (serves.fetched cmd).write short

theorem ServesStore.saved {cmd : NvmeCmd} {block : Nat}
    (names : (c.sent cmd).ForBlock nvmeCmdWrite block) (inside : block < 2048) :
    Leaves (c.switched dma cmd) 0 (store.save ⟨block, inside⟩) := by
  have accepted := names.accepted_iff.mpr inside
  have fits : (c.sent cmd).nlb.toNat * 512 = 512 := by rw [names.nlb]
  have works := mapped.reads ((c.fetched cmd).log (.mark (.command (c.sent cmd)))).trace
    (c.sent cmd).prp1 ((c.sent cmd).nlb.toNat * 512)
    (by rw [names.prp1, names.nlb]; decide)
  have bytes : (c.fetched cmd).memory.read (c.sent cmd).prp1 ((c.sent cmd).nlb.toNat * 512) =
      store.page.toList.take 512 := by
    rw [names.prp1, fits]
    exact (serves.fetched cmd).read (by decide)
  have passed : ¬ (c.sent cmd).Rejected := by
    have small : (c.sent cmd).lba.toNat + (c.sent cmd).nlb.toNat ≤ 2 ^ 64 - 1 := by
      rw [names.lba, names.nlb]
      omega
    rw [(c.sent cmd).rejects_iff small]
    exact not_not.mpr accepted
  have arrives : (pciDmaRead dma ((c.fetched cmd).log (.mark (.command (c.sent cmd))))
      (c.sent cmd).prp1 (c.rung.blocks (c.sent cmd))).1 = .ok := by
    rw [pciDmaRead_ok_iff, EduNvmeState.length_blocks, NvmeCmd.length_eq]
    exact works
  have status : (c.switched dma cmd).1 = 0 := by
    rw [NvmeController.switched, nvmeTransfer_writing _ _ _ names.opcode passed, if_pos arrives]
  have memory : (c.switched dma cmd).2.2.memory = (c.fetched cmd).memory := by
    rw [NvmeController.switched, nvmeTransfer_writing _ _ _ names.opcode passed, pciDmaRead_memory,
      Guest.log_memory]
  refine ⟨status, ?_, ?_⟩
  · rw [NvmeController.switched, nvmeTransfer_write names.opcode accepted works,
      Guest.log_memory, NvmeCmd.blockWrite, dif_pos ⟨names.opcode, accepted⟩, serves.rung]
    apply Disk.perform_one _ _ names.nlb names.lba
    intro cell
    dsimp only
    rw [bytes, List.getElem?_take_of_lt cell.isLt, List.getElem?_eq_getElem (by simp; omega),
      Vector.getElem_toList]
    rfl
  · rw [memory]
    exact serves.fetched cmd

/-- When the host has the completion, the controller serves what the switch left. -/
theorem ServesStore.finished {cmd : NvmeCmd} {status : BitVec 16} {left : NvmeStore}
    (leaves : Leaves (c.switched dma cmd) status left) : ServesStore (c.finished dma cmd) left := by
  refine ⟨serves.ready.finished cmd, ?_, ?_⟩
  · have storage : (c.finished dma cmd).dev.device.storage = (c.switched dma cmd).2.1.storage := by
      rw [NvmeController.finished, NvmeController.submitted, NvmeController.processed,
        advanceSqHead_eq, eduNvmeProcessCmd_storage]
      rfl
    rw [← leaves.disk]
    unfold EduNvmeState.disk
    rw [storage]
  · show Paged (c.processed dma cmd).2.memory left.page
    rw [serves.ready.processed_memory mapped]
    apply leaves.page.queues
    have slot := toNat_cqSlot c.cqHead
    have inside := serves.ready.cqInside
    rw [NvmeCqe.length_encode]
    show (cqIova + c.cqHead.setWidth 64 * 16).toNat + 16 ≤ 0x102000
    omega

omit serves mapped in
/-- The host sees the status without the phase. -/
theorem Leaves.code {cmd : NvmeCmd} {status : BitVec 16} {left : NvmeStore}
    (leaves : Leaves (c.switched dma cmd) status left) :
    (c.completion dma cmd).status &&& 0xFF = status &&& 0xFF := by
  rw [NvmeController.completion, leaves.status]
  have mask : (0xFF : BitVec 16) = (BitVec.allOnes 8).setWidth 16 := by decide
  rw [mask]
  apply BitVec.eq_of_getLsbD_eq
  intro index inside
  rw [BitVec.getLsbD_and, BitVec.getLsbD_and, BitVec.getLsbD_setWidth, BitVec.getLsbD_allOnes]
  by_cases low : index < 8
  · simp [EduNvmeState.completionOf, low]
  · simp only [low, decide_false, Bool.and_false]

section Calls

theorem ServesStore.call_identify :
    ∃ next, c.call dma .identify = .ok ((store.call .identify).1, next) ∧
      ServesStore next (store.call .identify).2 := by
  let cmd : NvmeCmd :=
    { NvmeController.zeroed with opcode := nvmeCmdIdentify, prp1 := dataIova, cdw10 := 1 }
  have leaves : Leaves (c.switched dma cmd) 0 (store.fill identifyData) :=
    serves.identified mapped rfl rfl
  have served := serves.finished mapped leaves
  refine ⟨c.finished dma cmd, ?_, served⟩
  have answered : c.identify dma = .ok (some eduIdentity, c.finished dma cmd) := by
    refine (serves.ready.answered mapped cmd _).trans ?_
    have whole : identifyData.length = 4096 := length_identifyData
    have read : (c.finished dma cmd).dev.guest.memory.read dataIova pageSize = identifyData := by
      rw [served.page.read (by decide), BlockStore.fill_page,
        take_overlay _ whole.ge (by decide), List.take_of_length_le whole.le]
    rw [← identity_identifyData]
    show Except.ok (some (Identity.mk ((c.completion dma cmd).status &&& 0xFF) _ _ _), _) = _
    rw [leaves.code, read]
    rfl
  rw [NvmeController.call, answered]
  rfl

theorem ServesStore.call_writeData (lba : BitVec 64) {data : List Byte} (fits : data.length ≤ 8192) :
    ∃ next, c.call dma (.writeData lba data) = .ok ((store.call (.writeData lba data)).1, next) ∧
      ServesStore next (store.call (.writeData lba data)).2 := by
  have filled := serves.fill fits
  let copied : NvmeController := { c with dev := c.dev.memcpy dataIova data }
  let cmd := NvmeController.blockCmd nvmeCmdWrite lba
  have names := sent_blockCmd copied nvmeCmdWrite lba
  have answer {status : BitVec 16} {left : NvmeStore}
      (leaves : Leaves (copied.switched dma cmd) status left) :
      c.call dma (.writeData lba data) =
        .ok (.writeData (status &&& 0xFF = 0), copied.finished dma cmd) := by
    have wrote : c.writeData dma lba data =
        .ok (status &&& 0xFF = 0, copied.finished dma cmd) := by
      refine (filled.ready.answered mapped cmd _).trans ?_
      rw [← leaves.code]
      rfl
    rw [NvmeController.call, wrote]
    rfl
  by_cases inside : NvmeStore.block lba < 2048
  · have leaves := filled.saved mapped names inside
    refine ⟨copied.finished dma cmd, ?_, ?_⟩
    · rw [answer leaves, NvmeStore.call, dif_pos inside]
      rfl
    · rw [NvmeStore.call, dif_pos inside]
      exact filled.finished mapped leaves
  · have leaves : Leaves (copied.switched dma cmd) 0x8002 (store.fill data) :=
      filled.refused names (.inr rfl) inside (BitVec.isLt _)
    refine ⟨copied.finished dma cmd, ?_, ?_⟩
    · rw [answer leaves, NvmeStore.call, dif_neg inside]
      rfl
    · rw [NvmeStore.call, dif_neg inside]
      exact filled.finished mapped leaves

theorem ServesStore.call_readData (lba : BitVec 64) {len : Nat} (fits : len ≤ 8192) :
    ∃ next, c.call dma (.readData lba len) = .ok ((store.call (.readData lba len)).1, next) ∧
      ServesStore next (store.call (.readData lba len)).2 := by
  have zeros : (List.replicate len (0 : Byte)).length ≤ 8192 := by rwa [List.length_replicate]
  have filled := serves.fill zeros
  let cleared : NvmeController := { c with dev := c.dev.memcpy dataIova (List.replicate len 0) }
  let cmd := NvmeController.blockCmd nvmeCmdRead lba
  have names := sent_blockCmd cleared nvmeCmdRead lba
  have answer {status : BitVec 16} {left : NvmeStore}
      (leaves : Leaves (cleared.switched dma cmd) status left) :
      c.call dma (.readData lba len) =
        .ok (.readData (status &&& 0xFF = 0) (left.page.toList.take len),
          cleared.finished dma cmd) := by
    have read : c.readData dma lba len =
        .ok ((status &&& 0xFF = 0, left.page.toList.take len), cleared.finished dma cmd) := by
      refine (filled.ready.answered mapped cmd _).trans ?_
      rw [← leaves.code, ← (filled.finished mapped leaves).page.read fits]
      rfl
    rw [NvmeController.call, read]
    rfl
  by_cases inside : NvmeStore.block lba < 2048
  · have leaves := filled.loaded mapped names inside
    refine ⟨cleared.finished dma cmd, ?_, ?_⟩
    · rw [answer leaves, NvmeStore.call, dif_pos inside]
      rfl
    · rw [NvmeStore.call, dif_pos inside]
      exact filled.finished mapped leaves
  · have leaves : Leaves (cleared.switched dma cmd) 0x8002 (store.fill (List.replicate len 0)) :=
      filled.refused names (.inl rfl) inside (BitVec.isLt _)
    refine ⟨cleared.finished dma cmd, ?_, ?_⟩
    · rw [answer leaves, NvmeStore.call, dif_neg inside]
      rfl
    · rw [NvmeStore.call, dif_neg inside]
      exact filled.finished mapped leaves

end Calls

end Effects

/-- The driver with its device is the store. -/
theorem nvmeDriver_refines {dma : Dma NvmeMark} (mapped : Mapped dma dmaIova dmaSize) :
    Refines ServesStore (fun _ call => call.Fits) (NvmeController.call dma) NvmeStore.call := by
  intro c store call serves fits
  cases call with
  | identify => exact serves.call_identify mapped
  | writeData lba data => exact serves.call_writeData mapped lba fits
  | readData lba len => exact serves.call_readData mapped lba fits

end EduDevices
