import EduDevices.Construction.Function
import EduDevices.Proof.RingSafety

namespace EduDevices

/-- The registers of one window replace those of another state. -/
def EduPciState.overlay (base : EduPciState) (bar : Bar) (own : EduPciState) : EduPciState :=
  match bar with
  | .bar0 =>
      { base with
        scratch := own.scratch
        factorialOut := own.factorialOut
        dmaSrc := own.dmaSrc
        dmaDst := own.dmaDst
        dmaLen := own.dmaLen
        dmaBusy := own.dmaBusy
        p2pAddr := own.p2pAddr
        p2pData := own.p2pData
        atsAddr := own.atsAddr }
  | .bar4 =>
      { base with
        ringAddr := own.ringAddr
        ringSize := own.ringSize
        ringHead := own.ringHead
        ringTail := own.ringTail
        ringEnabled := own.ringEnabled }
  | .bar5 =>
      { base with
        cryptoSrc := own.cryptoSrc
        cryptoDst := own.cryptoDst
        cryptoLen := own.cryptoLen
        cryptoBusy := own.cryptoBusy
        cryptoKey := own.cryptoKey
        cryptoIv := own.cryptoIv
        roundKeys := own.roundKeys }

@[simp] theorem overlay_self (s : EduPciState) (bar : Bar) : s.overlay bar s = s := by
  cases bar <;> rfl

@[simp] theorem overlay_parentObj (base own : EduPciState) (bar : Bar) :
    (base.overlay bar own).parentObj = base.parentObj := by
  cases bar <;> rfl

/-- The windows share no register. -/
theorem overlay_comm (base first second : EduPciState) {a b : Bar} (different : a ≠ b) :
    (base.overlay a first).overlay b second = (base.overlay b second).overlay a first := by
  cases a <;> cases b <;> first | exact absurd rfl different | rfl

section Frame

variable (dma : Dma DmaDescriptor) {base own : EduPciState} (g : Guest DmaDescriptor)
  (shared : base.parentObj = own.parentObj)

include shared

theorem eduPciWrite_overlay (addr val : BitVec 64) :
    eduPciWrite dma (base.overlay .bar0 own) g addr val =
      (base.overlay .bar0 (eduPciWrite dma own g addr val).1,
        (eduPciWrite dma own g addr val).2) := by
  unfold eduPciWrite
  split <;> try rfl
  all_goals
    simp only [EduPciState.overlay, shared]
    split_ifs <;> rfl

theorem eduRingProcessOne_overlay (sized : own.ringSize ≠ 0) :
    eduRingProcessOne dma (base.overlay .bar4 own) g =
      (eduRingProcessOne dma own g).map fun next => (base.overlay .bar4 next.1, next.2) := by
  have same : fetched dma (base.overlay .bar4 own) g = fetched dma own g := rfl
  cases found : fetched dma own g with
  | none =>
      rw [eduRingProcessOne_refused found, eduRingProcessOne_refused (same.trans found)]
      rfl
  | some desc =>
      have notice (guest : Guest DmaDescriptor) :
          notified (base.overlay .bar4 own) desc guest = notified own desc guest := by
        rw [notified, notified, overlay_parentObj, shared]
      rw [eduRingProcessOne_executed found sized,
        eduRingProcessOne_executed (same.trans found) sized, notice]
      rfl

/-- No turn of the loop looks at a register of another window. -/
theorem ringLoop_overlay (remaining : Nat) (sized : own.ringSize ≠ 0) :
    ringLoop dma remaining (base.overlay .bar4 own) g =
      (ringLoop dma remaining own g).map fun next => (base.overlay .bar4 next.1, next.2) := by
  induction remaining generalizing own g with
  | zero => rfl
  | succ remaining ih =>
      have indices : (base.overlay .bar4 own).ringHead ≠ (base.overlay .bar4 own).ringTail ↔
          own.ringHead ≠ own.ringTail := Iff.rfl
      unfold ringLoop
      simp only [indices]
      split
      · obtain ⟨ringHead, next, turn⟩ := eduRingProcessOne_device dma own g sized
        rw [eduRingProcessOne_overlay dma g shared sized, turn]
        exact ih next shared sized
      · rfl

theorem eduRingProcess_overlay :
    eduRingProcess dma (base.overlay .bar4 own) g =
      (eduRingProcess dma own g).map fun next => (base.overlay .bar4 next.1, next.2) := by
  have idle : ((base.overlay .bar4 own).ringEnabled = 0 ∨ (base.overlay .bar4 own).ringSize = 0) ↔
      (own.ringEnabled = 0 ∨ own.ringSize = 0) := Iff.rfl
  unfold eduRingProcess
  simp only [idle]
  split
  · rfl
  · next ready => exact ringLoop_overlay dma g shared _ fun zero => ready (.inr zero)

theorem eduRingProcess_conditional_overlay (condition : Prop) [Decidable condition] :
    (if condition then eduRingProcess dma (base.overlay .bar4 own) g
      else .ok (base.overlay .bar4 own, g)) =
      (if condition then eduRingProcess dma own g else .ok (own, g)).map fun next =>
        (base.overlay .bar4 next.1, next.2) := by
  split
  · exact eduRingProcess_overlay dma g shared
  · rfl

theorem eduRingWrite_overlay (addr val : BitVec 64) :
    eduRingWrite dma (base.overlay .bar4 own) g addr val =
      (eduRingWrite dma own g addr val).map fun next => (base.overlay .bar4 next.1, next.2) := by
  by_cases tail : addr = regRingTail
  · subst tail
    by_cases unsized : own.ringSize = 0
    · have empty : (base.overlay .bar4 own).ringSize = 0 := unsized
      rw [eduRingWrite_unsized dma g val unsized, eduRingWrite_unsized dma g val empty]
      rfl
    · have sized : (base.overlay .bar4 own).ringSize ≠ 0 := unsized
      rw [eduRingWrite_tail val unsized, eduRingWrite_tail val sized]
      let rung := own.withTail ((val % own.ringSize.setWidth 64).setWidth 32)
      exact eduRingProcess_conditional_overlay dma g (show base.parentObj = rung.parentObj from shared)
        (own.ringEnabled ≠ 0)
  by_cases ctrl : addr = regRingCtrl
  · subst ctrl
    rw [eduRingWrite_ctrl, eduRingWrite_ctrl]
    let switched := own.withEnabled ((val &&& ringCtrlEnable).setWidth 32)
    exact eduRingProcess_conditional_overlay dma g
      (show base.parentObj = switched.parentObj from shared)
      (switched.ringEnabled ≠ 0 ∧ switched.ringHead ≠ switched.ringTail)
  unfold eduRingWrite
  split <;> first | contradiction | rfl | (split_ifs <;> rfl)

theorem eduCryptoWrite_overlay (addr val : BitVec 64) (size : Nat) :
    eduCryptoWrite dma (base.overlay .bar5 own) g addr val size =
      (base.overlay .bar5 (eduCryptoWrite dma own g addr val size).1,
        (eduCryptoWrite dma own g addr val size).2) := by
  unfold eduCryptoWrite eduCryptoStart
  split <;> try rfl
  all_goals
    simp only [EduPciState.overlay, shared]
    split_ifs <;> rfl

end Frame

/-- An access reads and changes the registers of its own window only. -/
theorem pfAccess_overlay (dma : Dma DmaDescriptor) {base own : EduPciState}
    (g : Guest DmaDescriptor) (shared : base.parentObj = own.parentObj) (access : PfWrite) :
    pfAccess dma (base.overlay access.bar own, g) access =
      (pfAccess dma (own, g) access).map fun next =>
        (base.overlay access.bar next.1, next.2) := by
  obtain ⟨bar, host, addr, val⟩ := access
  cases bar with
  | bar0 => exact congrArg _ (eduPciWrite_overlay dma (g.rewrite host) shared addr (val.setWidth 64))
  | bar4 => exact eduRingWrite_overlay dma (g.rewrite host) shared addr (val.setWidth 64)
  | bar5 =>
      exact congrArg _ (eduCryptoWrite_overlay dma (g.rewrite host) shared addr (val.setWidth 64) 4)

/-- The registers of the other windows stay. -/
theorem pfAccess_others {dma : Dma DmaDescriptor} {s next : EduPciState}
    {g guest : Guest DmaDescriptor} {access : PfWrite}
    (taken : pfAccess dma (s, g) access = .ok (next, guest)) : next = s.overlay access.bar next := by
  have same : s.parentObj = s.parentObj := rfl
  have framed := pfAccess_overlay dma g same access
  rw [overlay_self, taken] at framed
  exact congrArg Prod.fst (Except.ok.inj framed)

end EduDevices
