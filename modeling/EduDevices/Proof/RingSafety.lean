import EduDevices.Library.Execution
import EduDevices.Proof.RingStep

namespace EduDevices

/-- One turn of the loop moves nothing of the device but its head. -/
theorem eduRingProcessOne_device (dma : Dma DmaDescriptor) (s : EduPciState)
    (g : Guest DmaDescriptor) (sized : s.ringSize ≠ 0) :
    ∃ ringHead next, eduRingProcessOne dma s g = .ok (s.withHead ringHead, next) := by
  cases found : fetched dma s g with
  | none =>
      obtain ⟨data, result, -, turn⟩ := eduRingProcessOne_rejected found
      exact ⟨s.ringHead, _, turn⟩
  | some desc => exact ⟨_, _, eduRingProcessOne_executed found sized⟩

theorem ringLoop_device (dma : Dma DmaDescriptor) (remaining : Nat) (s : EduPciState)
    (g : Guest DmaDescriptor) (sized : s.ringSize ≠ 0) :
    ∃ ringHead next, ringLoop dma remaining s g = .ok (s.withHead ringHead, next) := by
  induction remaining generalizing s g with
  | zero => exact ⟨s.ringHead, g, rfl⟩
  | succ remaining ih =>
      unfold ringLoop
      split
      · obtain ⟨ringHead, next, turn⟩ := eduRingProcessOne_device dma s g sized
        rw [turn]
        exact ih (s.withHead ringHead) next sized
      · exact ⟨s.ringHead, g, rfl⟩

/-- The processing checks the size before it divides, so it always returns. -/
theorem eduRingProcess_device (dma : Dma DmaDescriptor) (s : EduPciState)
    (g : Guest DmaDescriptor) :
    ∃ ringHead next, eduRingProcess dma s g = .ok (s.withHead ringHead, next) := by
  unfold eduRingProcess
  split
  · exact ⟨s.ringHead, g, rfl⟩
  · next ready => exact ringLoop_device dma _ s g fun unsized => ready (.inr unsized)

theorem eduRingProcess_conditional (dma : Dma DmaDescriptor) (s : EduPciState)
    (g : Guest DmaDescriptor) (condition : Prop) [Decidable condition] :
    ∃ ringHead next, (if condition then eduRingProcess dma s g else .ok (s, g)) =
      .ok (s.withHead ringHead, next) := by
  split
  · exact eduRingProcess_device dma s g
  · exact ⟨s.ringHead, g, rfl⟩

/-- The write sets the size of the ring. -/
def HostWrite.Sizes (write : HostWrite) : Prop :=
  write.addr = regRingSize ∧ ringSizeAccepted (write.val.setWidth 64)

instance (write : HostWrite) : Decidable write.Sizes := inferInstanceAs (Decidable (_ ∧ _))

theorem ringSizeAccepted_iff (val : BitVec 64) :
    ringSizeAccepted val ↔ 0 < val.toNat ∧ val.toNat ≤ 256 ∧ val &&& (val - 1) = 0 := by
  simp only [ringSizeAccepted, Bool.and_eq_true, decide_eq_true_eq, beq_iff_eq, gt_iff_lt,
    BitVec.lt_def, BitVec.le_def, and_assoc]
  rfl

theorem ringSizeAccepted_nonzero {val : BitVec 64} (accepted : ringSizeAccepted val) :
    val.setWidth 32 ≠ 0 := by
  obtain ⟨positive, bounded, -⟩ := (ringSizeAccepted_iff val).mp accepted
  intro zero
  have low : val.toNat % 2 ^ 32 = 0 := by
    simpa using congrArg BitVec.toNat zero
  omega

/-- A tail write to an unsized ring divides by zero. -/
theorem eduRingWrite_unsized (dma : Dma DmaDescriptor) {s : EduPciState}
    (g : Guest DmaDescriptor) (val : BitVec 64) (unsized : s.ringSize = 0) :
    eduRingWrite dma s g regRingTail val = .error .divideByZero := by
  simp [eduRingWrite, unsized, modulo]
  rfl

theorem ringAccess_unsized (dma : Dma DmaDescriptor) (s : EduPciState)
    (g : Guest DmaDescriptor) (write : HostWrite) (doorbell : write.addr = regRingTail)
    (unsized : s.ringSize = 0) :
    ringAccess dma (s, g) write = .error .divideByZero := by
  rw [ringAccess, doorbell]
  exact eduRingWrite_unsized dma _ _ unsized

/-- Every other write returns, and only an accepted size changes the size. The enable register
takes the enable bit of a control write. -/
theorem ringAccess_returns (dma : Dma DmaDescriptor) (s : EduPciState)
    (g : Guest DmaDescriptor) (write : HostWrite)
    (sized : write.addr = regRingTail → s.ringSize ≠ 0) :
    ∃ next, ringAccess dma (s, g) write = .ok next ∧
      (next.1.ringSize ≠ 0 ↔ s.ringSize ≠ 0 ∨ write.Sizes) ∧
      (next.1.ringEnabled = s.ringEnabled ∨
        next.1.ringEnabled = (write.val.setWidth 64 &&& ringCtrlEnable).setWidth 32) := by
  obtain ⟨host, addr, val⟩ := write
  unfold ringAccess HostWrite.Sizes
  dsimp only at sized ⊢
  have tail_size : regRingTail ≠ regRingSize := by decide
  have ctrl_size : regRingCtrl ≠ regRingSize := by decide
  by_cases tail : addr = regRingTail
  · subst tail
    rw [eduRingWrite_tail _ (sized rfl)]
    obtain ⟨ringHead, next, returned⟩ := eduRingProcess_conditional dma
      (s.withTail ((val.setWidth 64 % s.ringSize.setWidth 64).setWidth 32)) (g.rewrite host)
      (s.ringEnabled ≠ 0)
    exact ⟨_, returned, by simp [tail_size], .inl rfl⟩
  by_cases ctrl : addr = regRingCtrl
  · subst ctrl
    rw [eduRingWrite_ctrl]
    obtain ⟨ringHead, next, returned⟩ := eduRingProcess_conditional dma
      (s.withEnabled ((val.setWidth 64 &&& ringCtrlEnable).setWidth 32)) (g.rewrite host)
      ((val.setWidth 64 &&& ringCtrlEnable).setWidth 32 ≠ 0 ∧ s.ringHead ≠ s.ringTail)
    exact ⟨_, returned, by simp [ctrl_size], .inr rfl⟩
  by_cases size : addr = regRingSize
  · subst size
    by_cases accepted : ringSizeAccepted (val.setWidth 64)
    · have nonzero := ringSizeAccepted_nonzero accepted
      exact ⟨_, if_pos accepted, by simpa [accepted] using nonzero, .inl rfl⟩
    · exact ⟨_, if_neg accepted, by simp [accepted], .inl rfl⟩
  -- The two address halves and the offsets without a register leave the size alone.
  unfold eduRingWrite
  split <;> first | contradiction | exact ⟨_, rfl, by simp only [size, false_and, or_false], .inl rfl⟩

/-- Every doorbell comes after a write that sizes the ring. -/
def DoorbellsSized (writes : List HostWrite) : Prop :=
  ∀ before write after, writes = before ++ write :: after → write.addr = regRingTail →
    ∃ sizing ∈ before, sizing.Sizes

/-- A run divides by zero exactly when a doorbell of it finds no size, at the start or later. -/
theorem ringRun_returns_iff (dma : Dma DmaDescriptor) (s : EduPciState)
    (g : Guest DmaDescriptor) (writes : List HostWrite) :
    Execution.run (ringAccess dma) (s, g) writes ≠ .error .divideByZero ↔
      ∀ before write after, writes = before ++ write :: after → write.addr = regRingTail →
        s.ringSize ≠ 0 ∨ ∃ sizing ∈ before, sizing.Sizes := by
  induction writes generalizing s g with
  | nil => simp
  | cons first rest ih =>
      by_cases unsized : first.addr = regRingTail ∧ s.ringSize = 0
      · rw [Execution.run_cons, ringAccess_unsized dma s g first unsized.1 unsized.2]
        constructor
        · intro returns
          exact absurd rfl returns
        · intro sized
          rcases sized [] first rest rfl unsized.1 with nonzero | ⟨sizing, earlier, -⟩
          · exact absurd unsized.2 nonzero
          · exact absurd earlier List.not_mem_nil
      · obtain ⟨⟨device, guest⟩, taken, sizes, -⟩ := ringAccess_returns dma s g first
          fun doorbell zero => unsized ⟨doorbell, zero⟩
        rw [Execution.run_cons_of_ok rest taken, ih]
        dsimp only at sizes
        constructor
        · rintro later before write after split doorbell
          cases before with
          | nil =>
              obtain ⟨rfl, rfl⟩ := List.cons.inj split
              exact .inl fun zero => unsized ⟨doorbell, zero⟩
          | cons earliest before =>
              obtain ⟨rfl, tail⟩ := List.cons.inj split
              rcases later before write after tail doorbell with nonzero | ⟨sizing, member, does⟩
              · rcases sizes.mp nonzero with nonzero | does
                · exact .inl nonzero
                · exact .inr ⟨first, List.mem_cons_self, does⟩
              · exact .inr ⟨sizing, List.mem_cons_of_mem first member, does⟩
        · rintro whole before write after split doorbell
          rcases whole (first :: before) write after (congrArg (first :: ·) split) doorbell
            with nonzero | ⟨sizing, member, does⟩
          · exact .inl (sizes.mpr (.inl nonzero))
          · rcases List.mem_cons.mp member with rfl | member
            · exact .inl (sizes.mpr (.inr does))
            · exact .inr ⟨sizing, member, does⟩

/-- From power-on, no write divides by zero exactly when a size comes before every doorbell. -/
theorem powerOn_returns_iff (dma : Dma DmaDescriptor) (parentObj : PCIDevice)
    (g : Guest DmaDescriptor) (writes : List HostWrite) :
    Execution.run (ringAccess dma) (EduPciState.zeroed parentObj, g) writes ≠
      .error .divideByZero ↔ DoorbellsSized writes := by
  rw [ringRun_returns_iff]
  have zero : (EduPciState.zeroed parentObj).ringSize = 0 := rfl
  simp only [zero, ne_eq, not_true_eq_false, false_or]
  rfl

/-- A doorbell right after power-on divides by zero. -/
theorem powerOn_doorbell_divides :
    ¬ ∀ (dma : Dma DmaDescriptor) (parentObj : PCIDevice) (g : Guest DmaDescriptor)
        (writes : List HostWrite),
      Execution.run (ringAccess dma) (EduPciState.zeroed parentObj, g) writes ≠
        .error .divideByZero := by
  intro never
  exact never (DmaPattern.reliable.dma fun _ _ => 0) ⟨false⟩ ⟨fun _ => 0, []⟩
    [⟨id, regRingTail, 1⟩] rfl

end EduDevices
