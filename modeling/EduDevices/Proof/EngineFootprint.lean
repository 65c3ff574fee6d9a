import EduDevices.Library.Footprint
import EduDevices.Proof.FailedRead
import EduDevices.Proof.RegisterWindows

namespace EduDevices

/-- The rest of a turn of the ring once its descriptor was read. -/
def afterFetch (dma : Dma DmaDescriptor) (s : EduPciState) (fetch : MemTxResult × List Byte)
    (g : Guest DmaDescriptor) : PciOutcome :=
  let desc := DmaDescriptor.decode fetch.2
  if fetch.1 = .ok ∧ desc.Valid then
    let moved := transferred dma (g.log (.mark desc)) desc
    let status := pciDmaWrite dma moved.2 (descAddr s + 0x18) (littleEndian 4 moved.1)
    (modulo (s.ringHead + 1) s.ringSize).bind fun ringHead =>
      .ok (s.withHead ringHead, notified s desc status.2)
  else .ok (s, g)

theorem eduRingProcessOne_fetch (dma : Dma DmaDescriptor) (s : EduPciState)
    (g : Guest DmaDescriptor) :
    eduRingProcessOne dma s g =
      let read := pciDmaRead dma g (descAddr s) (stackBuffer dma g 32)
      afterFetch dma s (read.1, read.2.1) read.2.2 := by
  unfold eduRingProcessOne afterFetch
  dsimp only
  generalize pciDmaRead dma g (descAddr s) (stackBuffer dma g 32) = read
  obtain ⟨result, bytes, next⟩ := read
  dsimp only
  by_cases accepted : result = .ok ∧ (DmaDescriptor.decode bytes).Valid
  · rw [if_pos accepted, if_neg (not_not.mpr accepted.1), if_neg accepted.2]
    cases modulo (s.ringHead + 1) s.ringSize with
    | error fault => rfl
    | ok ringHead =>
        by_cases notices : (DmaDescriptor.decode bytes).flags &&& descFlagInt ≠ 0 ∧
            s.parentObj.msixEnabled
        · simp only [notified, if_pos notices]
          rfl
        · simp only [notified, if_neg notices]
          rfl
  · rw [if_neg accepted]
    by_cases works : result = .ok
    · rw [if_neg (not_not.mpr works), if_pos (not_not.mp fun valid => accepted ⟨works, valid⟩)]
    · rw [if_pos works]

section Engines

variable {pattern : DmaPattern} {stack : List (Event DmaDescriptor) → Nat → Byte}
  (settled : pattern.Settled stack 4096)

/-- An interrupt that depends on the device only. -/
theorem notice_framed {Result : Type} (result : Result) (condition : Prop) [Decidable condition]
    (vector : Nat) :
    Framed pattern fun g : Guest DmaDescriptor =>
      if condition then .ok (result, msixNotify g vector) else .ok (result, g) :=
  .conditional _ (fun _ => .log result fun _ => rfl) fun _ => .pure result

include settled

theorem dmaCopy_framed (src dst : Address) (dmaLen : BitVec 32) :
    Framed pattern fun g => .ok ((), dmaCopy (pattern.dma stack) g src dst dmaLen) :=
  .bind (.read settled src (cappedLen_le dmaLen)) fun read =>
    .bind (.write stack dst read.2) fun _ => .pure ()

theorem eduPciWrite_framed (s : EduPciState) (addr val : BitVec 64) :
    Framed pattern fun g => .ok (eduPciWrite (pattern.dma stack) s g addr val) := by
  unfold eduPciWrite
  split <;> try exact .pure _
  · simp only [apply_ite Except.ok]
    refine .conditional _ (fun _ => ?_) fun _ => .pure s
    exact (dmaCopy_framed settled s.dmaSrc s.dmaDst s.dmaLen).bind fun _ =>
      notice_framed { s with dmaBusy := 0 } (s.parentObj.msixEnabled = true) 0
  · simp only [apply_ite Except.ok]
    refine .conditional _ (fun _ => .log s fun _ => rfl) fun _ => ?_
    exact .conditional _ (fun _ => .log s fun _ => rfl) fun _ => .pure s
  · exact .log s fun _ => rfl
  · simp only [apply_ite Except.ok]
    refine .conditional _ (fun _ => ?_) fun _ => .pure s
    exact (Framed.write stack s.p2pAddr (littleEndian 4 s.p2pData)).bind fun _ => .pure s
  · simp only [apply_ite Except.ok]
    refine .conditional _ (fun _ => ?_) fun _ => .pure s
    exact (Framed.read settled s.atsAddr (Nat.zero_le 4096)).bind fun _ => .pure s

theorem transferred_framed (desc : DmaDescriptor) :
    Framed pattern fun g => .ok (transferred (pattern.dma stack) g desc) := by
  have moves (read : MemTxResult × List Byte) : Framed pattern fun g =>
      if read.1 ≠ .ok then .ok (descStatusError, g)
      else .ok (descStatusComplete, (pciDmaWrite (pattern.dma stack) g desc.dstAddr read.2).2) :=
    .conditional _ (fun _ => .pure _) fun _ =>
      (Framed.write stack desc.dstAddr read.2).bind fun _ => .pure descStatusComplete
  unfold transferred
  simp only [apply_ite Except.ok]
  exact (Framed.read settled desc.srcAddr (cappedLen_le desc.length)).bind moves

theorem afterFetch_framed (s : EduPciState) (fetch : MemTxResult × List Byte) :
    Framed pattern (afterFetch (pattern.dma stack) s fetch) := by
  let desc := DmaDescriptor.decode fetch.2
  have notices : Framed pattern fun g =>
      (modulo (s.ringHead + 1) s.ringSize).bind fun ringHead =>
        .ok (s.withHead ringHead, notified s desc g) := by
    cases modulo (s.ringHead + 1) s.ringSize with
    | error fault => exact .error fault
    | ok ringHead =>
        unfold notified
        simp only [Except.bind, apply_ite (Prod.mk _), apply_ite Except.ok]
        exact notice_framed (s.withHead ringHead) _ 1
  have puts (status : BitVec 32) : Framed pattern fun g =>
      .ok (pciDmaWrite (pattern.dma stack) g (descAddr s + 0x18) (littleEndian 4 status)) :=
    .write stack _ _
  have reports (status : BitVec 32) := (puts status).bind fun _ => notices
  have marked : Framed pattern fun g => .ok ((), g.log (.mark desc)) := .log () fun _ => rfl
  have executes := marked.bind fun _ => (transferred_framed settled desc).bind reports
  exact .conditional _ (fun _ => executes) fun _ => .pure s

theorem eduRingProcessOne_framed (s : EduPciState) :
    Framed pattern (eduRingProcessOne (pattern.dma stack) s) := by
  have same : eduRingProcessOne (pattern.dma stack) s = _ :=
    funext fun g => eduRingProcessOne_fetch (pattern.dma stack) s g
  rw [same]
  have short : 32 ≤ 4096 := by decide
  exact (Framed.read settled (descAddr s) short).bind (afterFetch_framed settled s)

/-- The induction is on the turns that the loop has left. -/
theorem ringLoop_framed (remaining : Nat) (s : EduPciState) :
    Framed pattern (ringLoop (pattern.dma stack) remaining s) := by
  induction remaining generalizing s with
  | zero => exact .pure s
  | succ remaining ih =>
      exact .conditional _ (fun _ => (eduRingProcessOne_framed settled s).bind ih) fun _ => .pure s

theorem eduRingProcess_framed (s : EduPciState) :
    Framed pattern (eduRingProcess (pattern.dma stack) s) :=
  .conditional _ (fun _ => .pure s) fun _ => ringLoop_framed settled _ s

theorem eduRingWrite_framed (s : EduPciState) (addr val : BitVec 64) :
    Framed pattern fun g => eduRingWrite (pattern.dma stack) s g addr val := by
  unfold eduRingWrite
  split <;> try exact .pure _
  · exact .conditional _ (fun _ => .pure _) fun _ => .pure s
  · cases modulo val (s.ringSize.setWidth 64) with
    | error fault => exact .error fault
    | ok tail => exact .conditional _ (fun _ => eduRingProcess_framed settled _) fun _ => .pure _
  · exact .conditional _ (fun _ => eduRingProcess_framed settled _) fun _ => .pure _

theorem eduCryptoStart_framed (s : EduPciState) (val : BitVec 64) :
    Framed pattern fun g => .ok (eduCryptoStart (pattern.dma stack) s g val) := by
  unfold eduCryptoStart
  simp only [apply_ite Except.ok]
  refine .conditional _ (fun _ => .pure s) fun _ => ?_
  have puts (read : MemTxResult × List Byte) : Framed pattern fun g =>
      .ok (pciDmaWrite (pattern.dma stack) g s.cryptoDst (transformed s val read.2)) :=
    .write stack _ _
  have writes (read : MemTxResult × List Byte) := (puts read).bind fun _ =>
    notice_framed { s with cryptoBusy := 0 } (s.parentObj.msixEnabled = true) 2
  exact (Framed.read settled s.cryptoSrc (cappedLen_le s.cryptoLen)).bind writes

theorem eduCryptoWrite_framed (s : EduPciState) (addr val : BitVec 64) (size : Nat) :
    Framed pattern fun g => .ok (eduCryptoWrite (pattern.dma stack) s g addr val size) := by
  unfold eduCryptoWrite
  split <;> try exact .pure _
  · simp only [apply_ite Except.ok]
    exact .conditional _ (fun _ => eduCryptoStart_framed settled s val) fun _ => .pure s
  · simp only [apply_ite Except.ok]
    refine .conditional _ (fun _ => ?_) fun _ => ?_
    · exact .conditional _ (fun _ => .pure _) fun _ => .pure _
    · exact .conditional _ (fun _ => .pure _) fun _ => .pure s

/-- A register write of any engine whose host leaves the memory alone is framed. -/
theorem pfAccess_framed (s : EduPciState) (bar : Bar) (addr : BitVec 64) (val : BitVec 32) :
    Framed pattern fun g => pfAccess (pattern.dma stack) (s, g) ⟨bar, id, addr, val⟩ := by
  cases bar with
  | bar0 => exact eduPciWrite_framed settled s addr (val.setWidth 64)
  | bar4 => exact eduRingWrite_framed settled s addr (val.setWidth 64)
  | bar5 => exact eduCryptoWrite_framed settled s addr (val.setWidth 64) 4

end Engines

end EduDevices
