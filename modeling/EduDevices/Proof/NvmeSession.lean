import EduDevices.Proof.NvmeStore
import EduDevices.Proof.RegisterHalves

namespace EduDevices

open Refinement

/-- The store that a device and the memory of its host stand for. -/
def storeOf (s : EduNvmeState) (memory : Memory) : NvmeStore where
  disk := s.disk
  page := Vector.ofFn fun index => memory (dataIova + BitVec.ofNat 64 index)
  fits := by decide

theorem paged_storeOf (s : EduNvmeState) (memory : Memory) : Paged memory (storeOf s memory).page := by
  intro index inside
  show _ = (Vector.ofFn fun index : Fin 8192 => memory (dataIova + BitVec.ofNat 64 index))[index]
  rw [Vector.getElem_ofFn]

section Init

variable (dma : Dma NvmeMark) (dev : NvmeDevice)

/-- The device when the driver has programmed and enabled it. -/
def started (s : EduNvmeState) : EduNvmeState :=
  { s with
    aqa := 0x000F000F
    asq := sqIova
    acq := cqIova
    cc := 0x00460001
    csts := s.csts ||| nvmeCstsRdy
    sqHead := 0
    sqTail := 0
    cqHead := 0
    cqTail := 0
    cqPhase := 1 }

theorem write64_asq (base : Address) :
    dev.write64 (nvmeAccess dma) nvmeAsq base =
      .ok { dev with device := { dev.device with asq := base } } := by
  have halves := withHigh_withLow dev.device.asq base
  conv_rhs => rw [← halves]
  rfl

theorem write64_acq (base : Address) :
    dev.write64 (nvmeAccess dma) nvmeAcq base =
      .ok { dev with device := { dev.device with acq := base } } := by
  have halves := withHigh_withLow dev.device.acq base
  conv_rhs => rw [← halves]
  rfl

/-- The host finds an enabled controller ready at its first poll. -/
theorem waitReady_started (polls : Nat) :
    NvmeDevice.waitReady { dev with device := started dev.device } (polls + 1) = true := by
  have ready : (dev.device.csts ||| nvmeCstsRdy) &&& 1 ≠ 0 := by
    intro clear
    have bit := congrArg (fun word : BitVec 32 => word.getLsbD 0) clear
    simp at bit
  have read : VfioDevice.read32 eduNvmeRead { dev with device := started dev.device } nvmeCsts =
      dev.device.csts ||| nvmeCstsRdy := by
    show ((dev.device.csts ||| nvmeCstsRdy).setWidth 64).setWidth 32 = _
    simp
  rw [NvmeDevice.waitReady, read, if_pos ready]

theorem write32_aqa :
    dev.write32 (nvmeAccess dma) nvmeAqa (((16 - 1) <<< 16) ||| (16 - 1)) =
      .ok { dev with device := { dev.device with aqa := 0x000F000F } } := rfl

theorem write32_cc (s : EduNvmeState) :
    VfioDevice.write32 (nvmeAccess dma) { dev with
      device := { s with aqa := 0x000F000F, asq := sqIova, acq := cqIova } } nvmeCc 0x00460001 =
      .ok { dev with device := started s } := rfl

/-- The driver starts the controller from any state that an earlier driver left. -/
theorem init_eq (c : NvmeController) :
    c.init dma = .ok (true, { c with dev := { c.dev with device := started c.dev.device } }) := by
  rw [NvmeController.init, write32_aqa, ok_bind, write64_asq, ok_bind, write64_acq, ok_bind,
    write32_cc, ok_bind, waitReady_started]
  rfl

end Init

/-- After the start the driver serves the store that the device stands for. -/
theorem serves_started (dev : NvmeDevice) (notifies : dev.device.parentObj.msixEnabled = true)
    (vector : dev.events.vector = 0) (drained : dev.events.Drained dev.guest) :
    ServesStore { NvmeController.new dev with dev := { dev with device := started dev.device } }
      (storeOf dev.device dev.guest.memory) := by
  refine ⟨?_, rfl, paged_storeOf _ _⟩
  exact ⟨rfl, rfl, rfl, notifies, rfl, rfl, Nat.zero_lt_succ _, Nat.zero_lt_succ _, vector, drained⟩

/-- A driver that starts the controller and then makes any calls gets the answers of a disk behind
two pages of data. -/
theorem nvmeDriver_serves (dma : Dma NvmeMark) (mapped : Mapped dma dmaIova dmaSize)
    (dev : NvmeDevice) (notifies : dev.device.parentObj.msixEnabled = true)
    (vector : dev.events.vector = 0) (drained : dev.events.Drained dev.guest)
    (calls : List NvmeCall) (fits : ∀ call ∈ calls, call.Fits) :
    ∃ c final, (NvmeController.new dev).init dma = .ok (true, c) ∧
      serve (NvmeController.call dma) c calls =
        .ok ((perform NvmeStore.call (storeOf dev.device dev.guest.memory) calls).1, final) ∧
      ServesStore final (perform NvmeStore.call (storeOf dev.device dev.guest.memory) calls).2 := by
  have guarded : Guarded (fun _ (call : NvmeCall) => call.Fits) NvmeStore.call
      (storeOf dev.device dev.guest.memory) calls :=
    .of_forall (fun call member _ => fits call member) _
  obtain ⟨final, served, last⟩ := (nvmeDriver_refines mapped).serve
    (serves_started dev notifies vector drained) guarded
  exact ⟨_, final, init_eq dma _, served, last⟩

/-- The identify data arrives and the last block is written and read, over a bus without faults. -/
theorem nvmeDriver_serves_lastBlock :
    let dma : Dma NvmeMark := DmaPattern.reliable.dma fun _ _ => 0
    let dev : NvmeDevice :=
      ⟨EduNvmeState.realized ⟨true⟩ fun _ => 0, ⟨fun _ => 0, []⟩, ⟨0, 0⟩⟩
    let calls : List NvmeCall := [.identify, .writeData 2047 [1, 2], .readData 2047 3, .readData 2048 1]
    ∃ c final, (NvmeController.new dev).init dma = .ok (true, c) ∧
      serve (NvmeController.call dma) c calls =
        .ok ((perform NvmeStore.call (storeOf dev.device dev.guest.memory) calls).1, final) ∧
      ServesStore final (perform NvmeStore.call (storeOf dev.device dev.guest.memory) calls).2 := by
  intro dma dev calls
  exact nvmeDriver_serves dma (mapped_reliable _ _ _) dev rfl rfl
    (EventFd.drained_read 0 dev.guest) calls (by decide)

section ReadBack

/-- The call writes to another block, or to none. -/
def NvmeCall.Spares (block : Nat) : NvmeCall → Prop
  | .writeData lba _ => NvmeStore.block lba ≠ block
  | _ => True

instance (block : Nat) : DecidablePred (NvmeCall.Spares block)
  | .identify => inferInstanceAs (Decidable True)
  | .writeData lba _ => inferInstanceAs (Decidable (NvmeStore.block lba ≠ block))
  | .readData _ _ => inferInstanceAs (Decidable True)

theorem NvmeStore.call_spares {store : NvmeStore} {call : NvmeCall} {block : Fin 2048}
    (spares : call.Spares block) : (store.call call).2.disk block = store.disk block := by
  cases call with
  | identify => rfl
  | readData lba len =>
      by_cases inside : NvmeStore.block lba < 2048
      · rw [NvmeStore.call, dif_pos inside, BlockStore.load_disk, BlockStore.fill_disk]
      · rw [NvmeStore.call, dif_neg inside, BlockStore.fill_disk]
  | writeData lba data =>
      by_cases inside : NvmeStore.block lba < 2048
      · have different : block ≠ ⟨NvmeStore.block lba, inside⟩ :=
          fun same => spares (congrArg Fin.val same).symm
        rw [NvmeStore.call, dif_pos inside, BlockStore.save_disk_of_ne _ different,
          BlockStore.fill_disk]
      · rw [NvmeStore.call, dif_neg inside, BlockStore.fill_disk]

/-- A read of a block returns what the disk holds of it. -/
theorem NvmeStore.call_readData {lba : BitVec 64} (store : NvmeStore)
    (inside : NvmeStore.block lba < 2048) {len : Nat} (short : len ≤ 512) :
    (store.call (.readData lba len)).1 = .readData true
      (some ((List.ofFn (store.disk ⟨NvmeStore.block lba, inside⟩)).take len)) := by
  rw [NvmeStore.call, dif_pos inside]
  dsimp only
  rw [BlockStore.take_load _ _ short, BlockStore.fill_disk]

/-- The block that data was written to starts with the data. -/
theorem NvmeStore.call_writeData {lba : BitVec 64} (store : NvmeStore)
    (inside : NvmeStore.block lba < 2048) {data : List Byte} {len : Nat} (short : len ≤ 512)
    (covered : len ≤ data.length) :
    (List.ofFn ((store.call (.writeData lba data)).2.disk ⟨NvmeStore.block lba, inside⟩)).take len =
      data.take len := by
  rw [NvmeStore.call, dif_pos inside, BlockStore.save_disk]
  apply List.ext_getElem
  · rw [List.length_take, List.length_take, List.length_ofFn]
    omega
  · intro index low _
    have within : index < len := by
      rw [List.length_take] at low
      omega
    have written : index < data.length := by omega
    rw [List.getElem_take, List.getElem_ofFn, List.getElem_take]
    exact store.staged_fill data ⟨index, by omega⟩ written

/-- A block that data was written to reads back as the data, whatever calls come before, and
whatever calls that spare the block come in between. -/
theorem nvmeDriver_readsBack (dma : Dma NvmeMark) (mapped : Mapped dma dmaIova dmaSize)
    (dev : NvmeDevice) (notifies : dev.device.parentObj.msixEnabled = true)
    (vector : dev.events.vector = 0) (drained : dev.events.Drained dev.guest)
    (before between : List NvmeCall) (lba again : BitVec 64) (data : List Byte) (len : Nat)
    (fits : ∀ call ∈ before ++ .writeData lba data :: between, call.Fits)
    (inside : NvmeStore.block lba < 2048) (same : NvmeStore.block again = NvmeStore.block lba)
    (spares : ∀ call ∈ between, call.Spares (NvmeStore.block lba)) (short : len ≤ 512)
    (covered : len ≤ data.length) :
    ∃ c replies final, (NvmeController.new dev).init dma = .ok (true, c) ∧
      serve (NvmeController.call dma) c
          (before ++ .writeData lba data :: between ++ [.readData again len]) =
        .ok (replies ++ [.readData true (some (data.take len))], final) := by
  let start := storeOf dev.device dev.guest.memory
  let calls := before ++ .writeData lba data :: between
  let reached := (perform NvmeStore.call start calls).2
  have guarded : Guarded (fun _ (call : NvmeCall) => call.Fits) NvmeStore.call start
      (calls ++ [.readData again len]) := by
    apply Guarded.of_forall
    intro call member _
    rcases List.mem_append.mp member with early | last
    · exact fits call early
    · rw [List.mem_singleton.mp last]
      exact short.trans (by decide)
  obtain ⟨final, served, -⟩ := (nvmeDriver_refines mapped).serve
    (serves_started dev notifies vector drained) guarded
  refine ⟨_, (perform NvmeStore.call start calls).1, final, init_eq dma _, served.trans ?_⟩
  have kept : (List.ofFn (reached.disk ⟨NvmeStore.block lba, inside⟩)).take len = data.take len := by
    show (List.ofFn ((perform NvmeStore.call start calls).2.disk _)).take len = _
    rw [perform_append, perform_cons]
    apply perform_invariant NvmeStore.call
      (fun store => (List.ofFn (store.disk ⟨NvmeStore.block lba, inside⟩)).take len = data.take len)
    · intro store call member held
      rw [NvmeStore.call_spares (spares call member)]
      exact held
    · exact NvmeStore.call_writeData _ inside short covered
  have answer : (reached.call (.readData again len)).1 = .readData true (some (data.take len)) := by
    rw [reached.call_readData (by rwa [same]) short, ← kept]
    simp only [same]
  rw [perform_append, perform_cons, perform_nil]
  show Except.ok (_ ++ [(reached.call (.readData again len)).1], final) = _
  rw [answer]

/-- The number of the block that is read has the low half of the one that was written. -/
theorem nvmeDriver_readsBack_alias :
    let dma : Dma NvmeMark := DmaPattern.reliable.dma fun _ _ => 0
    let dev : NvmeDevice :=
      ⟨EduNvmeState.realized ⟨true⟩ fun _ => 0, ⟨fun _ => 0, []⟩, ⟨0, 0⟩⟩
    ∃ c replies final, (NvmeController.new dev).init dma = .ok (true, c) ∧
      serve (NvmeController.call dma) c ([.identify] ++
          .writeData 7 [1, 2, 3] :: [.writeData 8 [4], .readData 9 512] ++
            [.readData 0x100000007 2]) =
        .ok (replies ++ [.readData true (some [1, 2])], final) := by
  intro dma dev
  exact nvmeDriver_readsBack dma (mapped_reliable _ _ _) dev rfl rfl
    (EventFd.drained_read 0 dev.guest) [.identify]
    [.writeData 8 [4], .readData 9 512] 7 0x100000007 [1, 2, 3] 2 (by decide) (by decide)
    (by decide) (by decide) (by decide) (by decide)

end ReadBack

end EduDevices
