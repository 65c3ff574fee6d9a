import EduDevices.Library.Execution
import EduDevices.Proof.NvmeStep

namespace EduDevices

open CircularQueue (slotAt within_queue)
open Execution (Always Legal)

/-- The indices that the device moves lie in the queues that the attributes describe. -/
structure Contained (s : EduNvmeState) : Prop where
  head : s.sqHead.toNat < sqSizeOf s.aqa
  tail : s.cqTail.toNat < cqSizeOf s.aqa

/-- A turn fetches inside the submission queue, moves the data of the command and posts inside the
completion queue. -/
inductive SqTurn (s : EduNvmeState) : List (Event NvmeMark) → Prop
  | mk (entry slot : Address) (bytes : List Byte) (fetch : MemTxResult)
      (moved : List (Event NvmeMark)) (cqe : NvmeCqe) (posted : MemTxResult)
      (whole : bytes.length = 64) (move : DataMove (NvmeCmd.decode bytes) moved)
      (fetches : ∀ index < 64,
        Within s.asq (64 * sqSizeOf s.aqa) (entry + BitVec.ofNat 64 index))
      (posts : ∀ index < 16, Within s.acq (16 * cqSizeOf s.aqa) (slot + BitVec.ofNat 64 index)) :
      SqTurn s ([.dmaRead entry bytes fetch, .mark (.command (NvmeCmd.decode bytes))] ++ moved ++
        [.mark (.completion slot cqe), .dmaWrite slot cqe.encode posted] ++ s.notices)

/-- The parts of the device that a turn of the loop leaves alone. -/
structure SameQueues (s next : EduNvmeState) : Prop where
  parentObj : next.parentObj = s.parentObj
  aqa : next.aqa = s.aqa
  asq : next.asq = s.asq
  acq : next.acq = s.acq

theorem SameQueues.turn {s next : EduNvmeState} (same : SameQueues s next) :
    SqTurn next = SqTurn s := by
  have notices : next.notices = s.notices := by
    rw [EduNvmeState.notices, EduNvmeState.notices, same.parentObj]
  funext events
  apply propext
  constructor
  · rintro ⟨entry, slot, bytes, fetch, moved, cqe, posted, whole, move, fetches, posts⟩
    rw [notices]
    exact ⟨entry, slot, bytes, fetch, moved, cqe, posted, whole, move,
      by rwa [same.asq, same.aqa] at fetches, by rwa [same.acq, same.aqa] at posts⟩
  · rintro ⟨entry, slot, bytes, fetch, moved, cqe, posted, whole, move, fetches, posts⟩
    rw [← notices]
    exact ⟨entry, slot, bytes, fetch, moved, cqe, posted, whole, move,
      by rwa [same.asq, same.aqa], by rwa [same.acq, same.aqa]⟩

section Loop

variable (dma : Dma NvmeMark) {s : EduNvmeState} (contained : Contained s)

include contained

theorem sqeAddr_inside (index : Nat) (inside : index < 64) :
    Within s.asq (64 * sqSizeOf s.aqa) (s.sqeAddr + BitVec.ofNat 64 index) := by
  have slot : s.sqeAddr = slotAt s.asq 64 (sqSizeOf s.aqa) s.sqHead.toNat :=
    slotAt_index s.asq 64 _ _ s.sqHead (Nat.mod_eq_of_lt contained.head).symm
  rw [slot]
  exact within_queue inside (Nat.succ_pos _)

theorem cqeAddr_inside (index : Nat) (inside : index < 16) :
    Within s.acq (16 * cqSizeOf s.aqa) (s.cqeAddr + BitVec.ofNat 64 index) := by
  have slot : s.cqeAddr = slotAt s.acq 16 (cqSizeOf s.aqa) s.cqTail.toNat :=
    slotAt_index s.acq 16 _ _ s.cqTail (Nat.mod_eq_of_lt contained.tail).symm
  rw [slot]
  exact within_queue inside (Nat.succ_pos _)

/-- A turn keeps both indices in their queues. -/
theorem sqTurn_contained (sqSize : BitVec 16) (sized : sqSize.toNat = sqSizeOf s.aqa)
    (cmd : List Byte) (whole : cmd.length = 64) (g : Guest NvmeMark) :
    (sqTurn dma sqSize cmd s g).1.length = 64 ∧
      Contained (sqTurn dma sqSize cmd s g).2.1 ∧ SameQueues s (sqTurn dma sqSize cmd s g).2.1 ∧
      g.Turns (SqTurn s) (sqTurn dma sqSize cmd s g).2.2 := by
  obtain ⟨storage, moved, status, posted, bytes, fetch, read, move, -, kept, device, trace⟩ :=
    sqTurn_spec dma sqSize cmd s g
  have length : bytes.length = 64 := by
    rw [(Prod.mk.inj read).2, pciDmaRead_length, whole]
  have stepped := toNat_advanceCqTail { s with storage } contained.tail
  have turned := toNat_advanceSqHead (advanceCqTail { s with storage }) sqSize
    (by rw [advanceCqTail_eq, sized]; exact contained.head)
  refine ⟨kept ▸ length, ?_, ?_, .one (.mk _ _ bytes fetch moved _ posted length move
    (sqeAddr_inside contained) (cqeAddr_inside contained)) trace⟩
  · rw [device, advanceSqHead_eq]
    rw [advanceCqTail_eq] at turned ⊢
    constructor
    · rw [turned, sized]
      exact Nat.mod_lt _ (Nat.succ_pos _)
    · rw [stepped]
      exact Nat.mod_lt _ (Nat.succ_pos _)
  · rw [device, advanceSqHead_eq, advanceCqTail_eq]
    exact ⟨rfl, rfl, rfl, rfl⟩

theorem sqTurns_contained (sqSize : BitVec 16) (sized : sqSize.toNat = sqSizeOf s.aqa)
    (turns : Nat) (cmd : List Byte) (whole : cmd.length = 64) (g : Guest NvmeMark) :
    Contained (sqTurns dma sqSize turns cmd s g).1 ∧
      g.Turns (SqTurn s) (sqTurns dma sqSize turns cmd s g).2 := by
  induction turns generalizing s cmd g with
  | zero => exact ⟨contained, .none _ rfl⟩
  | succ turns ih =>
      unfold sqTurns
      split
      · obtain ⟨again, moved, same, taken⟩ := sqTurn_contained dma contained sqSize sized cmd whole g
        obtain ⟨still, later⟩ := ih moved (by rw [same.aqa]; exact sized) _ again
          (sqTurn dma sqSize cmd s g).2.2
        rw [same.turn] at later
        exact ⟨still, taken.trans later⟩
      · exact ⟨contained, .none _ rfl⟩

end Loop

/-- The indices lie in the queues that a new attributes value describes. -/
def Fits (s : EduNvmeState) (aqa : BitVec 32) : Prop :=
  s.sqHead.toNat < sqSizeOf aqa ∧ s.cqTail.toNat < cqSizeOf aqa

/-- A write that leaves the sizes alone leaves the indices in their queues. -/
theorem nvmeAccess_kept (dma : Dma NvmeMark) {s : EduNvmeState} (contained : Contained s)
    (g : Guest NvmeMark) {write : HostWrite} (held : write.addr ≠ nvmeAqa)
    {next : EduNvmeState × Guest NvmeMark} (taken : nvmeAccess dma (s, g) write = .ok next) :
    Contained next.1 ∧ g.Turns (SqTurn s) next.2 := by
  rcases nvmeAccess_cases taken with ⟨-, quiet, head, tail⟩ | ⟨resizes, -⟩ | ⟨-, rfl⟩ | ⟨quiet, same⟩
  · refine ⟨⟨?_, ?_⟩, .none _ (by rw [quiet, Guest.rewrite_trace])⟩
    · rw [head]
      exact Nat.succ_pos _
    · rw [tail]
      exact Nat.succ_pos _
  · exact absurd resizes held
  · let rung : EduNvmeState := { s with sqTail := (write.val.setWidth 64).setWidth 16 }
    have started : Contained rung := ⟨contained.head, contained.tail⟩
    have same : SameQueues s rung := ⟨rfl, rfl, rfl, rfl⟩
    have finished := sqTurns_contained dma started _ (toNat_sqSize s.aqa) (2 ^ 16 + 1)
      (stackBuffer dma (g.rewrite write.host) 64) (length_stackBuffer ..) (g.rewrite write.host)
    rw [same.turn] at finished
    exact finished
  · refine ⟨⟨?_, ?_⟩, .none _ (by rw [quiet, Guest.rewrite_trace])⟩
    · rw [same.sqHead, same.aqa]
      exact contained.head
    · rw [same.cqTail, same.aqa]
      exact contained.tail

/-- Only a new attributes value can put an index outside its queue. -/
theorem nvmeAccess_contained (dma : Dma NvmeMark) {s : EduNvmeState} (contained : Contained s)
    (g : Guest NvmeMark) (write : HostWrite) {next : EduNvmeState × Guest NvmeMark}
    (taken : nvmeAccess dma (s, g) write = .ok next) :
    (Contained next.1 ↔ (write.addr = nvmeAqa → Fits s write.val)) ∧
      g.Turns (SqTurn s) next.2 := by
  by_cases resizes : write.addr = nvmeAqa
  · have stored : (write.val.setWidth 64).setWidth 32 = write.val := by
      rw [BitVec.setWidth_setWidth_of_le write.val (by decide), BitVec.setWidth_eq]
    rw [nvmeAccess, resizes] at taken
    obtain rfl := Except.ok.inj taken
    refine ⟨⟨?_, ?_⟩, .none _ rfl⟩
    · rintro ⟨head, tail⟩ -
      rw [stored] at head tail
      exact ⟨head, tail⟩
    · intro fits
      constructor
      · rw [stored]
        exact (fits resizes).1
      · rw [stored]
        exact (fits resizes).2
  · obtain ⟨kept, turns⟩ := nvmeAccess_kept dma contained g resizes taken
    exact ⟨⟨fun _ again => absurd again resizes, fun _ => kept⟩, turns⟩

theorem realized_contained (parentObj : PCIDevice) (outside : Memory) :
    Contained (EduNvmeState.realized parentObj outside) :=
  ⟨Nat.succ_pos _, Nat.succ_pos _⟩

/-- In a run from the realize function the indices stay in the queues, and so do all the entries
that are fetched and posted, exactly when every new attributes value leaves the indices in them. -/
theorem nvmeQueues_contained_iff (dma : Dma NvmeMark) (parentObj : PCIDevice) (outside : Memory)
    (g : Guest NvmeMark) (writes : List HostWrite) :
    (Always (fun machine => Contained machine.1) (nvmeAccess dma)
        (EduNvmeState.realized parentObj outside, g) writes ∧
      Legal (fun machine write => ∀ next, nvmeAccess dma machine write = .ok next →
          machine.2.Turns (SqTurn machine.1) next.2)
        (nvmeAccess dma) (EduNvmeState.realized parentObj outside, g) writes) ↔
      Legal (fun machine write => write.addr = nvmeAqa → Fits machine.1 write.val)
        (nvmeAccess dma) (EduNvmeState.realized parentObj outside, g) writes := by
  constructor
  · rintro ⟨always, -⟩
    refine always.legal ?_
    rintro ⟨s, guest⟩ write contained later resizes
    obtain ⟨next, taken⟩ : ∃ next, nvmeAccess dma (s, guest) write = .ok next := by
      rw [nvmeAccess, resizes]
      exact ⟨_, rfl⟩
    exact (nvmeAccess_contained dma contained guest write taken).1.mp (later _ taken) resizes
  · intro fits
    have always : Always (fun machine => Contained machine.1) (nvmeAccess dma)
        (EduNvmeState.realized parentObj outside, g) writes := by
      refine fits.always ?_ (realized_contained parentObj outside)
      rintro ⟨s, guest⟩ write next contained guarded taken
      exact (nvmeAccess_contained dma contained guest write taken).1.mpr guarded
    refine ⟨always, always.legal ?_⟩
    rintro ⟨s, guest⟩ write contained - next taken
    exact (nvmeAccess_contained dma contained guest write taken).2

/-- After one command in queues of two slots, the host makes them queues of one slot. -/
theorem nvmeQueues_escape :
    let dma : Dma NvmeMark := DmaPattern.reliable.dma fun _ _ => 0
    let g : Guest NvmeMark := ⟨fun _ => 0, []⟩
    let writes : List HostWrite := [⟨id, nvmeAqa, 0x00010001⟩, ⟨id, nvmeCc, 1⟩,
      ⟨id, nvmeSq0tdbl, 1⟩, ⟨id, nvmeAqa, 0⟩]
    ¬ Always (fun machine => Contained machine.1) (nvmeAccess dma)
      (EduNvmeState.realized ⟨true⟩ fun _ => 0, g) writes := by
  intro dma g writes always
  have reached : (Execution.run (nvmeAccess dma)
      (EduNvmeState.realized ⟨true⟩ fun _ => 0, g) writes).toOption.map
        (fun machine => (machine.1.sqHead, machine.1.aqa)) = some (1, 0) := by decide +kernel
  cases finished : Execution.run (nvmeAccess dma)
      (EduNvmeState.realized ⟨true⟩ fun _ => 0, g) writes with
  | error fault =>
      rw [finished] at reached
      cases reached
  | ok final =>
      rw [finished] at reached
      obtain ⟨head, sizes⟩ := Prod.mk.inj (Option.some.inj reached)
      have inside := (always.final finished).head
      rw [head, sizes] at inside
      exact absurd inside (by decide)

end EduDevices
