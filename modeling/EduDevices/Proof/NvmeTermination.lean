import EduDevices.Library.Execution
import EduDevices.Proof.NvmeStep

namespace EduDevices

open Execution

/-- The loop ends at the new tail after at most one turn for each slot of the queue, and the access
returns with it. -/
def DoorbellEnds (dma : Dma NvmeMark) (machine : EduNvmeState × Guest NvmeMark)
    (write : HostWrite) : Prop :=
  let s := machine.1
  let g := machine.2.rewrite write.host
  let sqSize : BitVec 16 := ((s.aqa &&& (0xFFF : BitVec 32)) + 1).setWidth 16
  let tail := write.val.setWidth 16
  ∃ final, sqLoop dma sqSize (sqSizeOf s.aqa + 1) (stackBuffer dma g 64) { s with sqTail := tail } g =
      .ok final ∧
    final.1.sqHead = tail ∧ final.1.sqTail = tail ∧ nvmeAccess dma machine write = .ok final

section Loop

variable {dma : Dma NvmeMark} {sqSize : BitVec 16} {cmd : List Byte} {s : EduNvmeState}
  {g : Guest NvmeMark}

theorem sqTurn_sqTail : (sqTurn dma sqSize cmd s g).2.1.sqTail = s.sqTail := by
  obtain ⟨storage, _, _, _, _, _, -, -, -, -, device, -⟩ := sqTurn_spec dma sqSize cmd s g
  rw [device, advanceSqHead_eq, advanceCqTail_eq]

theorem sqTurn_sqHead :
    (sqTurn dma sqSize cmd s g).2.1.sqHead = (advanceSqHead sqSize s).sqHead := by
  obtain ⟨storage, _, _, _, _, _, -, -, -, -, device, -⟩ := sqTurn_spec dma sqSize cmd s g
  rw [device, advanceCqTail_eq]
  unfold advanceSqHead
  dsimp only
  split <;> rfl

/-- A head beyond the queue goes back to its start. -/
theorem advanceSqHead_beyond (beyond : sqSize.toNat ≤ s.sqHead.toNat) :
    (advanceSqHead sqSize s).sqHead = 0 := by
  have next : (s.sqHead + 1).toNat = (s.sqHead.toNat + 1) % 65536 := BitVec.toNat_add ..
  unfold advanceSqHead
  dsimp only
  split
  · rfl
  next before =>
    have short : ¬ sqSize.toNat ≤ (s.sqHead + 1).toNat := before
    have high := s.sqHead.isLt
    exact BitVec.eq_of_toNat_eq (by rw [next]; show _ = 0; omega)

/-- Wherever the head stands, its next slot is one of the queue. -/
theorem advanceSqHead_inside (positive : 0 < sqSize.toNat) :
    (advanceSqHead sqSize s).sqHead.toNat < sqSize.toNat := by
  rcases Nat.lt_or_ge s.sqHead.toNat sqSize.toNat with inside | beyond
  · rw [toNat_advanceSqHead s sqSize inside]
    exact Nat.mod_lt _ positive
  · rw [advanceSqHead_beyond beyond]
    exact positive

/-- More turns than the loop takes make no difference. -/
theorem sqLoop_enough {turns more : Nat} (within : turns ≤ more)
    {final : EduNvmeState × Guest NvmeMark}
    (returned : sqLoop dma sqSize turns cmd s g = .ok final) :
    sqLoop dma sqSize more cmd s g = .ok final := by
  induction turns generalizing more cmd s g with
  | zero => cases returned
  | succ turns ih =>
      obtain ⟨more, rfl⟩ := Nat.exists_eq_add_of_le' (Nat.one_le_of_lt within)
      unfold sqLoop at returned ⊢
      split at returned
      · next pending =>
          rw [if_pos pending]
          exact ih (Nat.le_of_succ_le_succ within) returned
      · next done =>
          rw [if_neg done]
          exact returned

/-- Between two slots of the queue the loop takes one turn for each slot that it passes. -/
theorem sqLoop_inside {turns : Nat} (target : s.sqTail.toNat < sqSize.toNat)
    (inside : s.sqHead.toNat < sqSize.toNat)
    (enough : Cyclic.distance sqSize.toNat s.sqHead.toNat s.sqTail.toNat < turns) :
    ∃ final, sqLoop dma sqSize turns cmd s g = .ok final ∧ final.1.sqHead = s.sqTail ∧
      final.1.sqTail = s.sqTail := by
  induction turns generalizing cmd s g with
  | zero => exact absurd enough (Nat.not_lt_zero _)
  | succ turns ih =>
      by_cases pending : s.sqHead ≠ s.sqTail
      · have different : s.sqHead.toNat ≠ s.sqTail.toNat := mt BitVec.eq_of_toNat_eq pending
        have nearer := Cyclic.distance_next inside target different
        have head : (sqTurn dma sqSize cmd s g).2.1.sqHead.toNat =
            (s.sqHead.toNat + 1) % sqSize.toNat := by
          rw [sqTurn_sqHead, toNat_advanceSqHead s sqSize inside]
        obtain ⟨final, returned, ends, kept⟩ := @ih (sqTurn dma sqSize cmd s g).1
          (sqTurn dma sqSize cmd s g).2.1 (sqTurn dma sqSize cmd s g).2.2
          (by rwa [sqTurn_sqTail]) (by rw [head]; exact Nat.mod_lt _ (by omega))
          (by rw [head, sqTurn_sqTail]; omega)
        rw [sqTurn_sqTail] at ends kept
        refine ⟨final, ?_, ends, kept⟩
        rw [sqLoop, if_pos pending]
        exact returned
      · rw [sqLoop, if_neg pending]
        exact ⟨_, rfl, not_not.mp pending, rfl⟩

/-- A tail beyond the queue is never met, since every next head is a slot of the queue. -/
theorem sqLoop_endless {turns : Nat} (beyond : sqSize.toNat ≤ s.sqTail.toNat)
    (positive : 0 < sqSize.toNat) (pending : s.sqHead ≠ s.sqTail) :
    sqLoop dma sqSize turns cmd s g = .error .noReturn := by
  induction turns generalizing cmd s g with
  | zero => rfl
  | succ turns ih =>
      have tail := @sqTurn_sqTail dma sqSize cmd s g
      have head := @sqTurn_sqHead dma sqSize cmd s g
      have inside := advanceSqHead_inside (s := s) positive
      rw [sqLoop, if_pos pending]
      generalize sqTurn dma sqSize cmd s g = turn at tail head
      rw [← head] at inside
      rw [← tail] at beyond
      exact ih beyond fun level => absurd inside (by rw [level]; exact Nat.not_lt_of_le beyond)

/-- A loop that starts beyond the queue enters it with its first turn, so that one turn for each slot
is always enough. -/
theorem sqLoop_returns_iff (positive : 0 < sqSize.toNat) :
    (∃ final, sqLoop dma sqSize (sqSize.toNat + 1) cmd s g = .ok final ∧
      final.1.sqHead = s.sqTail ∧ final.1.sqTail = s.sqTail) ↔
      (s.sqTail.toNat < sqSize.toNat ∨ s.sqTail = s.sqHead) := by
  constructor
  · intro ⟨final, returned, _, _⟩
    by_contra neither
    obtain ⟨beyond, pending⟩ := not_or.mp neither
    rw [sqLoop_endless (Nat.le_of_not_lt beyond) positive (Ne.symm pending)] at returned
    cases returned
  · intro reachable
    rcases reachable with target | level
    · rcases Nat.lt_or_ge s.sqHead.toNat sqSize.toNat with inside | beyond
      · exact sqLoop_inside target inside ((Cyclic.distance_lt positive _ _).trans (Nat.lt_succ_self _))
      · have pending : s.sqHead ≠ s.sqTail := by
          intro same
          rw [same] at beyond
          omega
        have tail := @sqTurn_sqTail dma sqSize cmd s g
        have head : (sqTurn dma sqSize cmd s g).2.1.sqHead = 0 :=
          sqTurn_sqHead.trans (advanceSqHead_beyond beyond)
        rw [sqLoop, if_pos pending, ← tail]
        rw [← tail] at target
        dsimp only
        generalize sqTurn dma sqSize cmd s g = turn at target head
        refine sqLoop_inside target ?_ (Cyclic.distance_lt positive _ _)
        rw [head]
        exact positive
    · rw [sqLoop, if_neg (not_not.mpr level.symm)]
      exact ⟨_, rfl, level.symm, rfl⟩

end Loop

/-- The doorbell ends exactly for a tail in the queue, or for one that the head has reached. -/
theorem doorbellEnds_iff (dma : Dma NvmeMark) (s : EduNvmeState) (g : Guest NvmeMark)
    (write : HostWrite) (rings : write.addr = nvmeSq0tdbl) :
    DoorbellEnds dma (s, g) write ↔
      ((write.val.setWidth 16).toNat < sqSizeOf s.aqa ∨ write.val.setWidth 16 = s.sqHead) := by
  obtain ⟨host, addr, val⟩ := write
  subst rings
  have cut : (val.setWidth 64).setWidth 16 = val.setWidth 16 := by
    rw [BitVec.setWidth_setWidth_of_le val (by decide)]
  have bounded := sqSizeOf_le s.aqa
  have handler : nvmeAccess dma (s, g) ⟨host, nvmeSq0tdbl, val⟩ =
      sqLoop dma (((s.aqa &&& (0xFFF : BitVec 32)) + 1).setWidth 16) (2 ^ 16 + 1)
        (stackBuffer dma (g.rewrite host) 64) { s with sqTail := val.setWidth 16 }
        (g.rewrite host) := by
    rw [← cut]
    rfl
  have loop := @sqLoop_returns_iff dma (((s.aqa &&& (0xFFF : BitVec 32)) + 1).setWidth 16)
    (stackBuffer dma (g.rewrite host) 64) { s with sqTail := val.setWidth 16 } (g.rewrite host)
    (by rw [toNat_sqSize]; exact Nat.succ_pos _)
  rw [toNat_sqSize] at loop
  rw [← loop, DoorbellEnds, handler]
  dsimp only
  constructor
  · intro ⟨final, returned, head, tail, _⟩
    exact ⟨final, returned, head, tail⟩
  · intro ⟨final, returned, head, tail⟩
    exact ⟨final, returned, head, tail, sqLoop_enough (by omega) returned⟩

/-- In a run from the realize function every doorbell ends exactly when each one that is rung has a
tail in the queue as it is then sized, or one that the head has reached. -/
theorem nvmeDoorbells_end_iff (dma : Dma NvmeMark) (parentObj : PCIDevice) (outside : Memory)
    (g : Guest NvmeMark) (writes : List HostWrite) :
    Legal (fun machine write => write.addr = nvmeSq0tdbl → DoorbellEnds dma machine write)
        (nvmeAccess dma) (EduNvmeState.realized parentObj outside, g) writes ↔
      Legal (fun machine write => write.addr = nvmeSq0tdbl →
          (write.val.setWidth 16).toNat < sqSizeOf machine.1.aqa ∨
            write.val.setWidth 16 = machine.1.sqHead)
        (nvmeAccess dma) (EduNvmeState.realized parentObj outside, g) writes := by
  apply Legal.congr
  intro machine write
  exact forall_congr' fun rings => doorbellEnds_iff dma machine.1 machine.2 write rings

/-- The tail of a first doorbell does not fit the queue of one slot that the reset leaves. -/
theorem nvmeDoorbell_endless :
    let dma : Dma NvmeMark := DmaPattern.reliable.dma fun _ _ => 0
    let g : Guest NvmeMark := ⟨fun _ => 0, []⟩
    let writes : List HostWrite := [⟨id, nvmeSq0tdbl, 1⟩]
    ¬ Legal (fun machine write => write.addr = nvmeSq0tdbl → DoorbellEnds dma machine write)
      (nvmeAccess dma) (EduNvmeState.realized ⟨true⟩ fun _ => 0, g) writes := by
  intro dma g writes legal
  have reachable := (doorbellEnds_iff dma _ _ _ rfl).mp (legal.1 rfl)
  exact absurd reachable (by decide)

end EduDevices
