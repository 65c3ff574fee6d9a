import EduDevices.Library.Execution
import EduDevices.Proof.NvmeStep

namespace EduDevices

open Execution (Legal)

/-- The controller was never enabled or was disabled again. -/
def EduNvmeState.Disabled (s : EduNvmeState) : Prop := s.csts &&& nvmeCstsRdy = 0

/-- The write returns without a trace: the guest is as the host left it and the storage stays. -/
def Inert (dma : Dma NvmeMark) (machine : EduNvmeState × Guest NvmeMark) (write : HostWrite) : Prop :=
  ∃ next, nvmeAccess dma machine write = .ok (next, machine.2.rewrite write.host) ∧
    next.storage = machine.1.storage

section Loop

variable (dma : Dma NvmeMark) (sqSize : BitVec 16) (cmd : List Byte) (s : EduNvmeState)
  (g : Guest NvmeMark)

theorem sqTurn_grows : g.trace.length < (sqTurn dma sqSize cmd s g).2.2.trace.length := by
  obtain ⟨_, _, _, _, _, _, -, -, -, -, -, trace⟩ := sqTurn_spec dma sqSize cmd s g
  rw [trace]
  simp

theorem sqTurns_grows (turns : Nat) :
    g.trace.length ≤ (sqTurns dma sqSize turns cmd s g).2.trace.length := by
  induction turns generalizing cmd s g with
  | zero => exact le_rfl
  | succ turns ih =>
      unfold sqTurns
      split
      · exact (sqTurn_grows dma sqSize cmd s g).le.trans (ih _ _ _)
      · exact le_rfl

/-- A loop that has anything to do leaves a trace. -/
theorem sqLoop_grows {turns : Nat} {final : EduNvmeState × Guest NvmeMark}
    (pending : s.sqHead ≠ s.sqTail) (returned : sqLoop dma sqSize turns cmd s g = .ok final) :
    g.trace.length < final.2.trace.length := by
  cases turns with
  | zero => cases returned
  | succ turns =>
      have taken := sqLoop_turns returned
      rw [sqTurns, if_pos pending] at taken
      rw [← taken]
      exact (sqTurn_grows dma sqSize cmd s g).trans_le (sqTurns_grows dma sqSize _ _ _ turns)

end Loop

/-- Of all writes, only a doorbell with another value than the head does anything to the guest. -/
theorem inert_iff (dma : Dma NvmeMark) (s : EduNvmeState) (g : Guest NvmeMark) (write : HostWrite) :
    Inert dma (s, g) write ↔ (write.addr = nvmeSq0tdbl → write.val.setWidth 16 = s.sqHead) := by
  obtain ⟨host, addr, val⟩ := write
  have cut : (val.setWidth 64).setWidth 16 = val.setWidth 16 := by
    rw [BitVec.setWidth_setWidth_of_le val (by decide)]
  constructor
  · rintro ⟨next, returned, -⟩ rfl
    by_contra other
    have pending : s.sqHead ≠ (val.setWidth 64).setWidth 16 := by
      rw [cut]
      exact Ne.symm other
    exact absurd (sqLoop_grows dma _ _ { s with sqTail := (val.setWidth 64).setWidth 16 }
      (g.rewrite host) pending returned) (lt_irrefl _)
  · intro level
    unfold Inert nvmeAccess eduNvmeWrite
    dsimp only
    split
    · split <;> exact ⟨_, rfl, rfl⟩
    all_goals try exact ⟨_, rfl, rfl⟩
    · have done : s.sqHead = (val.setWidth 64).setWidth 16 := (cut.trans (level rfl)).symm
      exact ⟨{ s with sqTail := (val.setWidth 64).setWidth 16 }, if_neg (not_not.mpr done), rfl⟩

/-- No handler looks at the ready bit, so a disabled controller is inert in a run from the realize
function exactly when every doorbell that it gets names the head. -/
theorem disabled_inert_iff (dma : Dma NvmeMark) (parentObj : PCIDevice) (outside : Memory)
    (g : Guest NvmeMark) (writes : List HostWrite) :
    Legal (fun machine write => machine.1.Disabled → Inert dma machine write)
        (nvmeAccess dma) (EduNvmeState.realized parentObj outside, g) writes ↔
      Legal (fun machine write => machine.1.Disabled → write.addr = nvmeSq0tdbl →
          write.val.setWidth 16 = machine.1.sqHead)
        (nvmeAccess dma) (EduNvmeState.realized parentObj outside, g) writes := by
  apply Legal.congr
  intro machine write
  exact forall_congr' fun _ => inert_iff dma machine.1 machine.2 write

/-- The host sizes the queues and rings the doorbell without enabling the controller. -/
theorem disabled_executes :
    let dma : Dma NvmeMark := DmaPattern.reliable.dma fun _ _ => 0
    let g : Guest NvmeMark := ⟨fun _ => 0, []⟩
    let writes : List HostWrite := [⟨id, nvmeAqa, 0x00010001⟩, ⟨id, nvmeSq0tdbl, 1⟩]
    ¬ Legal (fun machine write => machine.1.Disabled → Inert dma machine write)
      (nvmeAccess dma) (EduNvmeState.realized ⟨true⟩ fun _ => 0, g) writes := by
  rintro dma g writes ⟨-, later⟩
  obtain ⟨inert, -⟩ := later _ rfl
  have disabled : (0 : BitVec 32) &&& nvmeCstsRdy = 0 := by decide
  have level := (inert_iff dma _ _ _).mp (inert disabled) rfl
  exact absurd level (by decide)

end EduDevices
