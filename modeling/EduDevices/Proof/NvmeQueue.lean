import EduDevices.Library.Execution
import EduDevices.Proof.NvmeStep

namespace EduDevices

open CircularQueue (slotAt)
open Execution (Chained)

/-- The slots of the two queues, by the number of the command since the controller was enabled. -/
def EduNvmeState.sqSlot (base : EduNvmeState) (position : Nat) : Address :=
  slotAt base.asq 64 (sqSizeOf base.aqa) position

def EduNvmeState.cqSlot (base : EduNvmeState) (position : Nat) : Address :=
  slotAt base.acq 16 (cqSizeOf base.aqa) position

/-- Between two states of the guest the fetched bytes are executed once as a command, which moves
its data, posts one completion into the slot of its position and notifies the host once. -/
def Answers (base : EduNvmeState) (position : Nat) (bytes : List Byte) (fetch : MemTxResult)
    (g next : Guest NvmeMark) : Prop :=
  ∃ moved cqe posted, DataMove (NvmeCmd.decode bytes) moved ∧
    cqe.cid = (NvmeCmd.decode bytes).cid ∧
    next.trace = g.trace ++ ([.dmaRead (base.sqSlot position) bytes fetch,
      .mark (.command (NvmeCmd.decode bytes))] ++ moved ++
      [.mark (.completion (base.cqSlot position) cqe),
        .dmaWrite (base.cqSlot position) cqe.encode posted] ++ base.notices)

/-- The device has executed a number of commands in the queues that the base state describes. -/
structure Progress (base : EduNvmeState) (executed : Nat) (s : EduNvmeState) : Prop where
  parentObj : s.parentObj = base.parentObj
  aqa : s.aqa = base.aqa
  asq : s.asq = base.asq
  acq : s.acq = base.acq
  sqHead : s.sqHead.toNat = executed % sqSizeOf base.aqa
  cqTail : s.cqTail.toNat = executed % cqSizeOf base.aqa

section Turn

variable {dma : Dma NvmeMark} {base s : EduNvmeState} {executed : Nat}

/-- A turn answers the entry of its position and moves both queues on by one slot. -/
theorem Progress.turn (progress : Progress base executed s) (sqSize : BitVec 16)
    (sized : sqSize.toNat = sqSizeOf base.aqa) (g : Guest NvmeMark) (cmd : List Byte) :
    (sqTurn dma sqSize cmd s g).1 = (pciDmaRead dma g (base.sqSlot executed) cmd).2.1 ∧
      Answers base executed (pciDmaRead dma g (base.sqSlot executed) cmd).2.1
        (pciDmaRead dma g (base.sqSlot executed) cmd).1 g (sqTurn dma sqSize cmd s g).2.2 ∧
      Progress base (executed + 1) (sqTurn dma sqSize cmd s g).2.1 ∧
      (sqTurn dma sqSize cmd s g).2.1.sqTail = s.sqTail := by
  have fetched : s.sqeAddr = base.sqSlot executed := by
    rw [EduNvmeState.sqeAddr, progress.asq]
    exact slotAt_index base.asq 64 _ executed s.sqHead progress.sqHead
  have target : s.cqeAddr = base.cqSlot executed := by
    rw [EduNvmeState.cqeAddr, progress.acq]
    exact slotAt_index base.acq 16 _ executed s.cqTail progress.cqTail
  have notices : s.notices = base.notices := by
    rw [EduNvmeState.notices, EduNvmeState.notices, progress.parentObj]
  have head : s.sqHead.toNat < sqSize.toNat := by
    rw [sized, progress.sqHead]
    exact Nat.mod_lt _ (Nat.succ_pos _)
  have tail : s.cqTail.toNat < cqSizeOf s.aqa := by
    rw [progress.aqa, progress.cqTail]
    exact Nat.mod_lt _ (Nat.succ_pos _)
  obtain ⟨storage, moved, status, posted, bytes, fetch, read, move, -, kept, device, trace⟩ :=
    sqTurn_spec dma sqSize cmd s g
  rw [fetched] at read trace
  obtain ⟨rfl, rfl⟩ := Prod.mk.inj read
  refine ⟨kept, ⟨moved, s.completionOf (NvmeCmd.decode _) status, posted, move, rfl, ?_⟩, ?_, ?_⟩
  · rw [trace, target, notices]
  · have stepped := toNat_advanceCqTail { s with storage } tail
    have turned := toNat_advanceSqHead (advanceCqTail { s with storage }) sqSize
      (by rw [advanceCqTail_eq]; exact head)
    rw [device, advanceSqHead_eq]
    rw [advanceCqTail_eq] at turned ⊢
    refine ⟨progress.parentObj, progress.aqa, progress.asq, progress.acq, ?_, ?_⟩
    · rw [turned]
      dsimp only
      rw [progress.sqHead, sized, Cyclic.slot_add]
    · rw [stepped]
      dsimp only
      rw [progress.cqTail, progress.aqa, Cyclic.slot_add]
  · rw [device, advanceSqHead_eq, advanceCqTail_eq]

end Turn

inductive NvmeDoorbell where
  | submission (host : Memory → Memory) (tail : BitVec 32)
  | completion (host : Memory → Memory) (head : BitVec 32)

def NvmeDoorbell.write : NvmeDoorbell → HostWrite
  | .submission host tail => ⟨host, nvmeSq0tdbl, tail⟩
  | .completion host head => ⟨host, nvmeCq0hdbl, head⟩

/-- A submission doorbell names a slot of the queue. -/
def NvmeDoorbell.InQueue (size : Nat) : NvmeDoorbell → Prop
  | .submission _ tail => tail.toNat < size
  | .completion _ _ => True

/-- A submission doorbell serves the slots from the previous tail up to the new one. -/
inductive Rung (serve : Nat → Guest NvmeMark → Guest NvmeMark → Prop) (size : Nat) :
    Nat → Nat → List NvmeDoorbell → Guest NvmeMark → Guest NvmeMark → Prop where
  | none (executed tail : Nat) (g : Guest NvmeMark) : Rung serve size executed tail [] g g
  | submission {executed tail : Nat} {host : Memory → Memory} {next : BitVec 32}
      {rest : List NvmeDoorbell} {g middle final : Guest NvmeMark}
      (served : Chained serve executed (Cyclic.distance size tail next.toNat) (g.rewrite host) middle)
      (later : Rung serve size (executed + Cyclic.distance size tail next.toNat) next.toNat rest
        middle final) :
      Rung serve size executed tail (.submission host next :: rest) g final
  | completion {executed tail : Nat} {host : Memory → Memory} {head : BitVec 32}
      {rest : List NvmeDoorbell} {g final : Guest NvmeMark}
      (later : Rung serve size executed tail rest (g.rewrite host) final) :
      Rung serve size executed tail (.completion host head :: rest) g final

def lastTail : Nat → List NvmeDoorbell → Nat
  | tail, [] => tail
  | _, .submission _ next :: rest => lastTail next.toNat rest
  | tail, .completion _ _ :: rest => lastTail tail rest

section Runs

variable (dma : Dma NvmeMark) {base : EduNvmeState}
  {serve : Nat → Guest NvmeMark → Guest NvmeMark → Prop}
  (answered : ∀ position g cmd next, cmd.length = 64 →
    Answers base position (pciDmaRead dma g (base.sqSlot position) cmd).2.1
      (pciDmaRead dma g (base.sqSlot position) cmd).1 g next → serve position g next)

include answered

/-- The loop stops when it has served the slots up to the tail, and leaves turns over. -/
theorem Progress.loop (sqSize : BitVec 16) (sized : sqSize.toNat = sqSizeOf base.aqa)
    {executed : Nat} {s : EduNvmeState} (progress : Progress base executed s) (count turns : Nat)
    (enough : count < turns) (short : count < sqSizeOf base.aqa)
    (arrives : s.sqTail.toNat = (executed + count) % sqSizeOf base.aqa) (g : Guest NvmeMark)
    (cmd : List Byte) (whole : cmd.length = 64) :
    ∃ last guest, sqLoop dma sqSize turns cmd s g = .ok (last, guest) ∧
      Chained serve executed count g guest ∧ Progress base (executed + count) last ∧
      last.sqTail = s.sqTail ∧ last.sqHead = last.sqTail := by
  induction count generalizing executed s turns g cmd with
  | zero =>
      obtain ⟨turns, rfl⟩ := Nat.exists_eq_add_of_lt enough
      have stops : s.sqHead = s.sqTail := by
        apply BitVec.eq_of_toNat_eq
        rw [progress.sqHead, arrives, Nat.add_zero]
      rw [Nat.zero_add, sqLoop, if_neg (not_not.mpr stops)]
      exact ⟨s, g, rfl, .done executed g, progress, rfl, stops⟩
  | succ count ih =>
      obtain ⟨turns, rfl⟩ := Nat.exists_eq_add_of_lt enough
      have runs : s.sqHead ≠ s.sqTail := by
        intro same
        rw [← BitVec.toNat_inj, progress.sqHead, arrives,
          Cyclic.slot_eq_iff (by omega) (by omega)] at same
        omega
      obtain ⟨fetched, answer, advanced, kept⟩ := progress.turn sqSize sized g cmd
      have refetched : (sqTurn dma sqSize cmd s g).1.length = 64 := by
        rw [fetched, pciDmaRead_length, whole]
      rw [← kept, Nat.add_comm count 1, ← Nat.add_assoc] at arrives
      obtain ⟨last, guest, finished, served, progressed, tail, stops⟩ :=
        ih advanced (count + 1 + turns) (by omega) (by omega) arrives
          (sqTurn dma sqSize cmd s g).2.2 (sqTurn dma sqSize cmd s g).1 refetched
      refine ⟨last, guest, ?_, .next (answered executed g cmd _ whole answer) served, ?_,
        tail.trans kept, stops⟩
      · rw [sqLoop, if_pos runs]
        exact finished
      · rw [Nat.add_right_comm] at progressed
        exact progressed

/-- A submission doorbell executes the commands between the previous tail and its own. -/
theorem Progress.submission {executed : Nat} {s : EduNvmeState}
    (progress : Progress base executed s) (level : s.sqHead = s.sqTail) (g : Guest NvmeMark)
    (host : Memory → Memory) (tail : BitVec 32) (inside : tail.toNat < sqSizeOf base.aqa) :
    ∃ last guest,
      nvmeAccess dma (s, g) (NvmeDoorbell.submission host tail).write = .ok (last, guest) ∧
      Chained serve executed (Cyclic.distance (sqSizeOf base.aqa) s.sqTail.toNat tail.toNat)
        (g.rewrite host) guest ∧
      Progress base
        (executed + Cyclic.distance (sqSizeOf base.aqa) s.sqTail.toNat tail.toNat) last ∧
      last.sqHead = last.sqTail ∧ last.sqTail.toNat = tail.toNat := by
  have bounded := sqSizeOf_le base.aqa
  have positive : 0 < sqSizeOf base.aqa := Nat.succ_pos _
  have short := Cyclic.distance_lt positive s.sqTail.toNat tail.toNat
  have stored : ((tail.setWidth 64).setWidth 16).toNat = tail.toNat := by
    rw [BitVec.toNat_setWidth, BitVec.toNat_setWidth]
    omega
  have slot : s.sqTail.toNat = executed % sqSizeOf base.aqa := by
    rw [← level]
    exact progress.sqHead
  have sized := toNat_sqSize base.aqa
  have reset : Progress base executed { s with sqTail := (tail.setWidth 64).setWidth 16 } :=
    ⟨progress.parentObj, progress.aqa, progress.asq, progress.acq, progress.sqHead, progress.cqTail⟩
  have arrives : ((tail.setWidth 64).setWidth 16).toNat =
      (executed + Cyclic.distance (sqSizeOf base.aqa) s.sqTail.toNat tail.toNat) %
        sqSizeOf base.aqa := by
    rw [stored, ← Cyclic.slot_add, ← slot,
      Cyclic.slot_add_distance (by rw [slot]; exact Nat.mod_lt _ (Nat.succ_pos _)) inside]
  obtain ⟨last, guest, finished, served, progressed, kept, stops⟩ :=
    reset.loop dma answered _ sized _ (2 ^ 16 + 1) (by omega) short arrives (g.rewrite host)
      (stackBuffer dma (g.rewrite host) 64) (length_stackBuffer ..)
  refine ⟨last, guest, ?_, served, progressed, stops, ?_⟩
  · rw [← progress.aqa] at finished
    exact finished
  · rw [kept]
    exact stored

theorem Progress.run {executed : Nat} {s : EduNvmeState} (progress : Progress base executed s)
    (level : s.sqHead = s.sqTail) (g : Guest NvmeMark) (doorbells : List NvmeDoorbell)
    (inside : ∀ doorbell ∈ doorbells, doorbell.InQueue (sqSizeOf base.aqa)) :
    ∃ last guest,
      Execution.run (nvmeAccess dma) (s, g) (doorbells.map NvmeDoorbell.write) =
        .ok (last, guest) ∧
      Rung serve (sqSizeOf base.aqa) executed s.sqTail.toNat doorbells g guest ∧
      last.sqHead = last.sqTail ∧ last.sqTail.toNat = lastTail s.sqTail.toNat doorbells := by
  induction doorbells generalizing executed s g with
  | nil => exact ⟨s, g, rfl, .none executed _ g, level, rfl⟩
  | cons doorbell rest ih =>
      have first := inside doorbell List.mem_cons_self
      have others := fun doorbell member => inside doorbell (List.mem_cons_of_mem _ member)
      rw [List.map_cons]
      cases doorbell with
      | submission host tail =>
          obtain ⟨next, middle, taken, served, advanced, stops, stored⟩ :=
            progress.submission dma answered level g host tail first
          obtain ⟨last, guest, finished, rung, ends, reached⟩ := ih advanced stops middle others
          rw [stored] at rung reached
          exact ⟨last, guest, (Execution.run_cons_of_ok _ taken).trans finished,
            .submission served rung, ends, reached⟩
      | completion host head =>
          have kept : Progress base executed { s with cqHead := (head.setWidth 64).setWidth 16 } :=
            ⟨progress.parentObj, progress.aqa, progress.asq, progress.acq, progress.sqHead,
              progress.cqTail⟩
          obtain ⟨last, guest, finished, rung, ends, reached⟩ :=
            ih kept level (g.rewrite host) others
          exact ⟨last, guest, finished, .completion rung, ends, reached⟩

end Runs

/-- Enabling the controller empties both queues and keeps what was programmed before. -/
theorem enable_progress (dma : Dma NvmeMark) (s : EduNvmeState) (g : Guest NvmeMark)
    (val : BitVec 64) (enables : val &&& nvmeCcEn ≠ 0) :
    ∃ enabled, eduNvmeWrite dma s g nvmeCc val = .ok (enabled, g) ∧ Progress s 0 enabled ∧
      enabled.sqHead = enabled.sqTail ∧ enabled.sqTail.toNat = 0 := by
  have taken : eduNvmeWrite dma s g nvmeCc val = .ok (_, g) := if_pos enables
  exact ⟨_, taken, ⟨rfl, rfl, rfl, rfl, (Nat.zero_mod _).symm, (Nat.zero_mod _).symm⟩, rfl, rfl⟩

end EduDevices
