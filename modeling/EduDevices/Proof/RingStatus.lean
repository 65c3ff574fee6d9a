import EduDevices.Library.Execution
import EduDevices.Construction.Function
import EduDevices.Proof.RingStep

namespace EduDevices

open Execution

section Runs

variable (Holds Other : EduPciState → Guest DmaDescriptor → Prop) (dma : Dma DmaDescriptor)

/-- Each of the first turns of the loop starts where the property holds. -/
def EveryRingTurn : Nat → EduPciState → Guest DmaDescriptor → Prop
  | 0, _, _ => True
  | remaining + 1, s, g =>
      s.ringHead ≠ s.ringTail → Holds s g ∧
        ∀ next, eduRingProcessOne dma s g = .ok next → EveryRingTurn remaining next.1 next.2

/-- The state from which a write to the tail or to the control register starts the loop. -/
def ringStart (s : EduPciState) (write : HostWrite) : EduPciState :=
  if write.addr = regRingTail then
    s.withTail ((write.val.setWidth 64 % s.ringSize.setWidth 64).setWidth 32)
  else s.withEnabled ((write.val.setWidth 64 &&& ringCtrlEnable).setWidth 32)

/-- Each turn that a write makes the ring take starts where the property holds. -/
def EveryRungDescriptor (machine : EduPciState × Guest DmaDescriptor) (access : PfWrite) : Prop :=
  access.bar = .bar4 → access.write.addr = regRingTail ∨ access.write.addr = regRingCtrl →
    let start := ringStart machine.1 access.write
    start.ringEnabled ≠ 0 → start.ringSize ≠ 0 →
      EveryRingTurn Holds dma start.ringSize.toNat start (machine.2.rewrite access.write.host)

/-- A write to the tail or to the control register of a ring with a size is these turns. -/
theorem ringAccess_start (s : EduPciState) (g : Guest DmaDescriptor) (write : HostWrite)
    (rings : write.addr = regRingTail ∨ write.addr = regRingCtrl) (sized : s.ringSize ≠ 0) :
    ringAccess dma (s, g) write =
      if (ringStart s write).ringEnabled ≠ 0 then
        ringLoop dma (ringStart s write).ringSize.toNat (ringStart s write) (g.rewrite write.host)
      else .ok (ringStart s write, g.rewrite write.host) := by
  obtain ⟨host, addr, val⟩ := write
  have process (start : EduPciState) (size : start.ringSize ≠ 0) (enabled : start.ringEnabled ≠ 0) :
      eduRingProcess dma start (g.rewrite host) =
        ringLoop dma start.ringSize.toNat start (g.rewrite host) :=
    if_neg (not_or.mpr ⟨enabled, size⟩)
  unfold ringAccess
  dsimp only at rings ⊢
  rcases rings with tail | ctrl
  · subst tail
    have start : ringStart s ⟨host, regRingTail, val⟩ =
        s.withTail ((val.setWidth 64 % s.ringSize.setWidth 64).setWidth 32) := rfl
    rw [eduRingWrite_tail _ sized, start, withTail_ringEnabled]
    by_cases enabled : s.ringEnabled ≠ 0
    · rw [if_pos enabled, if_pos enabled]
      exact process (s.withTail _) sized enabled
    · rw [if_neg enabled, if_neg enabled]
  · subst ctrl
    have start : ringStart s ⟨host, regRingCtrl, val⟩ =
        s.withEnabled ((val.setWidth 64 &&& ringCtrlEnable).setWidth 32) := rfl
    rw [eduRingWrite_ctrl, start]
    dsimp only
    by_cases enabled : (s.withEnabled ((val.setWidth 64 &&& ringCtrlEnable).setWidth 32)).ringEnabled ≠ 0
    · rw [if_pos enabled]
      split
      next starts => exact process (s.withEnabled _) sized enabled
      next idle =>
        have level : s.ringHead = s.ringTail := not_not.mp fun pending => idle ⟨enabled, pending⟩
        rw [ringLoop_level]
        exact level
    · rw [if_neg enabled, if_neg fun starts => enabled starts.1]

variable {Holds Other} {dma}

theorem EveryRingTurn.congr (same : ∀ s g, s.ringSize ≠ 0 → (Holds s g ↔ Other s g))
    (remaining : Nat) (s : EduPciState) (g : Guest DmaDescriptor) (sized : s.ringSize ≠ 0) :
    EveryRingTurn Holds dma remaining s g ↔ EveryRingTurn Other dma remaining s g := by
  induction remaining generalizing s g with
  | zero => exact Iff.rfl
  | succ remaining ih =>
      refine forall_congr' fun _ => and_congr (same s g sized) ?_
      refine forall₂_congr fun next taken => ih next.1 next.2 ?_
      cases found : fetched dma s g with
      | none =>
          obtain ⟨data, result, -, turn⟩ := eduRingProcessOne_rejected found
          rw [turn] at taken
          obtain rfl := Except.ok.inj taken
          exact sized
      | some desc =>
          rw [eduRingProcessOne_executed found sized] at taken
          obtain rfl := Except.ok.inj taken
          exact sized

theorem EveryRungDescriptor.congr (same : ∀ s g, s.ringSize ≠ 0 → (Holds s g ↔ Other s g))
    (machine : EduPciState × Guest DmaDescriptor) (access : PfWrite) :
    EveryRungDescriptor Holds dma machine access ↔ EveryRungDescriptor Other dma machine access := by
  refine forall₂_congr fun _ _ => forall₂_congr fun _ sized => ?_
  exact EveryRingTurn.congr same _ _ _ sized

end Runs

/-- Both transfers of the descriptor were made, with the same data and without an error. -/
def BothSucceed (desc : DmaDescriptor) (transfers : List (Event DmaDescriptor)) : Prop :=
  ∃ data, transfers = [.dmaRead desc.srcAddr data .ok, .dmaWrite desc.dstAddr data .ok]

def DmaDescriptor.notices (desc : DmaDescriptor) (s : EduPciState) : List (Event DmaDescriptor) :=
  if desc.flags &&& descFlagInt ≠ 0 ∧ s.parentObj.msixEnabled then [.msixNotify 1] else []

/-- A message interrupt, when they are on. -/
def PCIDevice.notice (pdev : PCIDevice) (vector : Nat) : List (Event DmaDescriptor) :=
  if pdev.msixEnabled then [.msixNotify vector] else []

/-- The interrupt that a descriptor asks for. -/
def DmaDescriptor.asked (desc : DmaDescriptor) (pdev : PCIDevice) : List (Event DmaDescriptor) :=
  if desc.flags &&& descFlagInt ≠ 0 then pdev.notice 1 else []

theorem notices_eq_asked (desc : DmaDescriptor) (s : EduPciState) :
    desc.notices s = desc.asked s.parentObj := by
  rw [DmaDescriptor.notices, DmaDescriptor.asked, PCIDevice.notice, ite_and]

/-- What executing the descriptor of a slot does to the guest: the slot is fetched, the data is read
and, unless that fails, written, and the status that tells which of these it was is stored. -/
inductive DescriptorTurn (pdev : PCIDevice) (slot : Address) (desc : DmaDescriptor) :
    List (Event DmaDescriptor) → Prop
  | failed (bytes data : List Byte) (written : MemTxResult) (whole : bytes.length = 32)
      (decoded : DmaDescriptor.decode bytes = desc) (length : data.length = desc.len.toNat) :
      DescriptorTurn pdev slot desc ([.dmaRead slot bytes .ok, .mark desc,
        .dmaRead desc.srcAddr data .error,
        .dmaWrite (slot + 0x18) (littleEndian 4 descStatusError) written] ++ desc.asked pdev)
  | moved (bytes data : List Byte) (landed written : MemTxResult) (whole : bytes.length = 32)
      (decoded : DmaDescriptor.decode bytes = desc) (length : data.length = desc.len.toNat) :
      DescriptorTurn pdev slot desc ([.dmaRead slot bytes .ok, .mark desc,
        .dmaRead desc.srcAddr data .ok, .dmaWrite desc.dstAddr data landed,
        .dmaWrite (slot + 0x18) (littleEndian 4 descStatusComplete) written] ++ desc.asked pdev)

/-- The descriptor is fetched, transferred, given its status and announced. -/
def Serves (s : EduPciState) (g : Guest DmaDescriptor) (desc : DmaDescriptor)
    (transfers : List (Event DmaDescriptor)) (status : BitVec 32) (next : Guest DmaDescriptor) : Prop :=
  ∃ posted, next.trace = g.trace ++
    ([.dmaRead (descAddr s) (g.memory.read (descAddr s) 32) .ok, .mark desc] ++ transfers ++
      [.dmaWrite (descAddr s + 0x18) (littleEndian 4 status) posted] ++ desc.notices s)

/-- The status of the descriptor is complete when both transfers succeeded, and the data then stands
at the destination. Otherwise it is an error. -/
def TruthfulStatus (dma : Dma DmaDescriptor) (s : EduPciState) (g : Guest DmaDescriptor)
    (desc : DmaDescriptor) : Prop :=
  ∃ next transfers status, eduRingProcessOne dma s g = .ok (advanced s, next) ∧
    Serves s g desc transfers status next ∧
    (status = descStatusComplete ↔ BothSucceed desc transfers) ∧
    (BothSucceed desc transfers → next.memory.read desc.dstAddr desc.length.toNat =
      g.memory.read desc.srcAddr desc.length.toNat) ∧
    (¬ BothSucceed desc transfers → status = descStatusError)

/-- The bus takes the data of the descriptor when it has given it. -/
def Delivers (dma : Dma DmaDescriptor) (s : EduPciState) (g : Guest DmaDescriptor)
    (desc : DmaDescriptor) : Prop :=
  let trace := g.trace ++ [.dmaRead (descAddr s) (g.memory.read (descAddr s) 32) .ok, .mark desc]
  let data := g.memory.read desc.srcAddr desc.length.toNat
  dma.readFault trace desc.srcAddr desc.length.toNat = none →
    dma.writeFault (trace ++ [.dmaRead desc.srcAddr data .ok]) desc.dstAddr desc.length.toNat = none

section Turn

variable {dma : Dma DmaDescriptor} {s : EduPciState} {g : Guest DmaDescriptor} {desc : DmaDescriptor}

theorem littleEndian_inj {first second : BitVec 32}
    (same : littleEndian 4 first = littleEndian 4 second) : first = second := by
  rw [← fromLittleEndian_littleEndian 4 first (by decide), same,
    fromLittleEndian_littleEndian 4 second (by decide)]

/-- The trace tells the transfers and the status of a descriptor. -/
theorem Serves.unique {transfers others : List (Event DmaDescriptor)} {status other : BitVec 32}
    {next : Guest DmaDescriptor} (first : Serves s g desc transfers status next)
    (second : Serves s g desc others other next) : transfers = others ∧ status = other := by
  obtain ⟨posted, one⟩ := first
  obtain ⟨again, two⟩ := second
  rw [one] at two
  have turn := List.append_cancel_right (List.append_cancel_left two)
  obtain ⟨moved, answer⟩ := List.append_inj' turn rfl
  obtain ⟨-, written, -⟩ := Event.dmaWrite.inj (List.cons.inj answer).1
  exact ⟨(List.append_inj moved rfl).2, littleEndian_inj written⟩

/-- The guest when the transfer of the descriptor starts. -/
def handed (s : EduPciState) (g : Guest DmaDescriptor) (desc : DmaDescriptor) : Guest DmaDescriptor :=
  (g.log (.dmaRead (descAddr s) (g.memory.read (descAddr s) 32) .ok)).log (.mark desc)

theorem handed_trace : (handed s g desc).trace =
    g.trace ++ [.dmaRead (descAddr s) (g.memory.read (descAddr s) 32) .ok, .mark desc] :=
  List.append_assoc ..

theorem completed_eq : completed dma s g desc =
    (pciDmaWrite dma (transferred dma (handed s g desc) desc).2 (descAddr s + 0x18)
      (littleEndian 4 (transferred dma (handed s g desc) desc).1)).2 := rfl

/-- What the transfer of the descriptor logs and the status that it leaves are what it serves. -/
theorem serves_completed {transfers : List (Event DmaDescriptor)}
    (grown : (transferred dma (handed s g desc) desc).2.trace = (handed s g desc).trace ++ transfers) :
    Serves s g desc transfers (transferred dma (handed s g desc) desc).1
      (notified s desc (completed dma s g desc)) := by
  refine ⟨(pciDmaWrite dma (transferred dma (handed s g desc) desc).2 (descAddr s + 0x18)
    (littleEndian 4 (transferred dma (handed s g desc) desc).1)).1, ?_⟩
  unfold notified DmaDescriptor.notices
  split
  · rw [msixNotify, Guest.log_trace, completed_eq, pciDmaWrite_trace, grown, handed_trace]
    simp only [List.append_assoc]
  · rw [completed_eq, pciDmaWrite_trace, grown, handed_trace, List.append_nil]
    simp only [List.append_assoc]

/-- A read that fails leaves an error and nothing else. -/
theorem transferred_failed {fill : Nat → Option Byte}
    (fails : dma.readFault g.trace desc.srcAddr desc.len.toNat = some fill) :
    ∃ data, data.length = desc.len.toNat ∧ transferred dma g desc =
      (descStatusError, g.log (.dmaRead desc.srcAddr data .error)) := by
  unfold transferred
  rw [pciDmaRead_of_error (by rwa [length_stackBuffer])]
  exact ⟨_, by rw [List.length_mapIdx, length_stackBuffer], rfl⟩

/-- A read that succeeds makes the descriptor complete, whatever becomes of the write. -/
theorem transferred_read (works : dma.readFault g.trace desc.srcAddr desc.len.toNat = none) :
    transferred dma g desc = (descStatusComplete,
      (pciDmaWrite dma (g.log (.dmaRead desc.srcAddr (g.memory.read desc.srcAddr desc.len.toNat) .ok))
        desc.dstAddr (g.memory.read desc.srcAddr desc.len.toNat)).2) := by
  unfold transferred
  rw [pciDmaRead_of_ok (by rwa [length_stackBuffer]), length_stackBuffer]
  rfl

/-- The data of a delivered descriptor survives the write of the status. -/
theorem completed_copied (works : dma.readFault (handed s g desc).trace desc.srcAddr desc.len.toNat = none)
    (lands : dma.writeFault ((handed s g desc).trace ++
      [.dmaRead desc.srcAddr (g.memory.read desc.srcAddr desc.len.toNat) .ok]) desc.dstAddr
        desc.len.toNat = none)
    (apart : Apart desc.dstAddr desc.len.toNat (descAddr s) 32) :
    (notified s desc (completed dma s g desc)).memory.read desc.dstAddr desc.len.toNat =
      g.memory.read desc.srcAddr desc.len.toNat := by
  have bounded : desc.len.toNat ≤ 4096 := cappedLen_le desc.length
  have length : (g.memory.read desc.srcAddr desc.len.toNat).length = desc.len.toNat :=
    Memory.length_read ..
  have transfer := transferred_read works
  rw [show (handed s g desc).memory = g.memory from rfl, pciDmaWrite_of_ok (by rwa [length])] at transfer
  have same : (notified s desc (completed dma s g desc)).memory.read desc.dstAddr desc.len.toNat =
      (transferred dma (handed s g desc) desc).2.memory.read desc.dstAddr desc.len.toNat := by
    apply Memory.read_congr
    intro index inside
    rw [notified_memory, completed_eq]
    apply pciDmaWrite_outside
    intro status
    apply apart _ (within_add desc.dstAddr inside)
    rw [length_littleEndian] at status
    unfold Within at status ⊢
    bv_omega
  rw [same, transfer]
  have copied := Memory.read_write_same g.memory desc.dstAddr
    (g.memory.read desc.srcAddr desc.len.toNat) (by omega)
  rwa [length] at copied

/-- A read that fails is all that an error reports. -/
theorem serves_failed {fill : Nat → Option Byte}
    (fails : dma.readFault (handed s g desc).trace desc.srcAddr desc.len.toNat = some fill) :
    ∃ data, data.length = desc.len.toNat ∧
      Serves s g desc [.dmaRead desc.srcAddr data .error] descStatusError
        (notified s desc (completed dma s g desc)) := by
  obtain ⟨data, length, transfer⟩ := transferred_failed fails
  have serves := @serves_completed dma s g desc [.dmaRead desc.srcAddr data .error]
    (by rw [transfer]; rfl)
  rw [transfer] at serves
  exact ⟨data, length, serves⟩

/-- A read that succeeds is followed by the write of its data, whatever becomes of that. -/
theorem serves_read
    (works : dma.readFault (handed s g desc).trace desc.srcAddr desc.len.toNat = none) :
    let data := g.memory.read desc.srcAddr desc.len.toNat
    let read := (handed s g desc).log (.dmaRead desc.srcAddr data .ok)
    Serves s g desc [.dmaRead desc.srcAddr data .ok,
      .dmaWrite desc.dstAddr data (pciDmaWrite dma read desc.dstAddr data).1] descStatusComplete
      (notified s desc (completed dma s g desc)) := by
  intro data read
  have transfer : transferred dma (handed s g desc) desc =
      (descStatusComplete, (pciDmaWrite dma read desc.dstAddr data).2) := transferred_read works
  have written := pciDmaWrite_trace dma read desc.dstAddr data
  have serves := @serves_completed dma s g desc _
    (by rw [transfer, written, Guest.log_trace, List.append_assoc])
  rw [transfer] at serves
  exact serves

/-- An executed descriptor has one turn of its own. -/
theorem descriptorTurn_completed (found : fetched dma s g = some desc) :
    ∃ turn, DescriptorTurn s.parentObj (descAddr s) desc turn ∧
      (notified s desc (completed dma s g desc)).trace = g.trace ++ turn := by
  obtain ⟨-, -, decoded⟩ := fetched_eq_some_iff.mp found
  let bytes := g.memory.read (descAddr s) 32
  have whole : bytes.length = 32 := Memory.length_read ..
  cases fault : dma.readFault (handed s g desc).trace desc.srcAddr desc.len.toNat with
  | none =>
      let data := g.memory.read desc.srcAddr desc.len.toNat
      let landed := (pciDmaWrite dma ((handed s g desc).log (.dmaRead desc.srcAddr data .ok))
        desc.dstAddr data).1
      obtain ⟨written, grown⟩ := serves_read fault
      rw [notices_eq_asked] at grown
      refine ⟨_, .moved bytes data landed written whole decoded (Memory.length_read ..), ?_⟩
      rw [grown]
      simp only [List.append_assoc]
      rfl
  | some fill =>
      obtain ⟨data, length, written, grown⟩ := serves_failed fault
      rw [notices_eq_asked] at grown
      refine ⟨_, .failed bytes data written whole decoded length, ?_⟩
      rw [grown]
      simp only [List.append_assoc]
      rfl

theorem not_bothSucceed_error (data : List Byte) :
    ¬ BothSucceed desc [.dmaRead desc.srcAddr data .error] := by
  intro ⟨_, both⟩
  cases both

theorem bothSucceed_iff (data : List Byte) (result : MemTxResult) :
    BothSucceed desc [.dmaRead desc.srcAddr data .ok, .dmaWrite desc.dstAddr data result] ↔
      result = .ok := by
  constructor
  · intro ⟨_, same⟩
    exact (Event.dmaWrite.inj (List.cons.inj (List.cons.inj same).2).1).2.2
  · intro works
    exact ⟨data, by rw [works]⟩

/-- The status is truthful exactly when the bus takes what it has given. -/
theorem truthfulStatus_iff (found : fetched dma s g = some desc) (sized : s.ringSize ≠ 0)
    (short : desc.length.toNat ≤ 4096)
    (apart : Apart desc.dstAddr desc.length.toNat (descAddr s) 32) :
    TruthfulStatus dma s g desc ↔ Delivers dma s g desc := by
  have length : desc.length.toNat = desc.len.toNat := by
    rw [DmaDescriptor.len, toNat_cappedLen, Nat.min_eq_left short]
  have executed := eduRingProcessOne_executed found sized
  unfold Delivers TruthfulStatus
  rw [length] at apart ⊢
  dsimp only
  rw [← handed_trace]
  cases source : dma.readFault (handed s g desc).trace desc.srcAddr desc.len.toNat with
  | some fill =>
      obtain ⟨data, -, serves⟩ := serves_failed source
      have failed := @not_bothSucceed_error desc data
      have other : descStatusError ≠ descStatusComplete := by decide
      apply iff_of_true
      · exact ⟨_, _, _, executed, serves, iff_of_false other failed,
          fun both => absurd both failed, fun _ => rfl⟩
      · intro works
        cases works
  | none =>
      have serves := serves_read source
      have lands := pciDmaWrite_ok_iff dma ((handed s g desc).log (.dmaRead desc.srcAddr
        (g.memory.read desc.srcAddr desc.len.toNat) .ok)) desc.dstAddr
        (g.memory.read desc.srcAddr desc.len.toNat)
      rw [← bothSucceed_iff, Memory.length_read, Guest.log_trace] at lands
      constructor
      · intro ⟨next, transfers, status, returned, served, complete, _, _⟩ _
        obtain rfl := (Prod.mk.inj (Except.ok.inj (returned.symm.trans executed))).2
        obtain ⟨moved, answered⟩ := served.unique serves
        rw [moved] at complete
        exact lands.mp (complete.mp answered)
      · intro delivers
        have landed := delivers rfl
        have success := lands.mpr landed
        exact ⟨_, _, _, executed, serves, iff_of_true rfl success,
          fun _ => completed_copied source landed apart, fun failed => absurd success failed⟩

end Turn

/-- In a run from power-on every status that the ring writes for a short descriptor, apart from its
destination, is truthful exactly when the bus always takes the data that it has given. -/
theorem ringStatus_truthful_iff (dma : Dma DmaDescriptor) (parentObj : PCIDevice)
    (g : Guest DmaDescriptor) (accesses : List PfWrite) :
    Legal (EveryRungDescriptor (fun s g => ∀ desc, fetched dma s g = some desc →
          desc.length.toNat ≤ 4096 → Apart desc.dstAddr desc.length.toNat (descAddr s) 32 →
          TruthfulStatus dma s g desc) dma)
        (pfAccess dma) (EduPciState.zeroed parentObj, g) accesses ↔
      Legal (EveryRungDescriptor (fun s g => ∀ desc, fetched dma s g = some desc →
          desc.length.toNat ≤ 4096 → Apart desc.dstAddr desc.length.toNat (descAddr s) 32 →
          Delivers dma s g desc) dma)
        (pfAccess dma) (EduPciState.zeroed parentObj, g) accesses := by
  apply Legal.congr
  intro machine access
  refine EveryRungDescriptor.congr (fun s g sized => ?_) machine access
  refine forall₂_congr fun desc found => forall₂_congr fun short apart => ?_
  exact truthfulStatus_iff found sized short apart

/-- The destination cannot be written, and the status says that the descriptor is complete. -/
theorem ringStatus_untruthful :
    let desc : DmaDescriptor := ⟨0x1000, 0, 0x2000, 0, 4, 1, 0, 0⟩
    let dma : Dma DmaDescriptor := (DmaPattern.mk (fun _ _ => none)
      fun address _ => if address = 0x2000 then some fun _ => false else none).dma fun _ _ => 0
    let g : Guest DmaDescriptor := ⟨fun address => desc.encode.getD address.toNat 0, []⟩
    let accesses : List PfWrite := [⟨.bar4, ⟨id, regRingSize, 2⟩⟩, ⟨.bar4, ⟨id, regRingCtrl, 1⟩⟩,
      ⟨.bar4, ⟨id, regRingTail, 1⟩⟩]
    ¬ Legal (EveryRungDescriptor (fun s g => ∀ desc, fetched dma s g = some desc →
          desc.length.toNat ≤ 4096 → Apart desc.dstAddr desc.length.toNat (descAddr s) 32 →
          TruthfulStatus dma s g desc) dma)
        (pfAccess dma) (EduPciState.zeroed ⟨true⟩, g) accesses ∧
      (run (pfAccess dma) (EduPciState.zeroed ⟨true⟩, g) accesses).toOption.map
        (fun machine => machine.2.memory 0x18) = some 1 := by
  intro desc dma g accesses
  refine ⟨fun legal => ?_, by decide +kernel⟩
  let sized := { EduPciState.zeroed ⟨true⟩ with ringSize := 2 }
  let enabled := sized.withEnabled 1
  have first : pfAccess dma (EduPciState.zeroed ⟨true⟩, g) ⟨.bar4, ⟨id, regRingSize, 2⟩⟩ =
      .ok (sized, g) := rfl
  have second : pfAccess dma (sized, g) ⟨.bar4, ⟨id, regRingCtrl, 1⟩⟩ = .ok (enabled, g) := rfl
  obtain ⟨rung, -⟩ := (legal.2 _ first).2 _ second
  let start := enabled.withTail 1
  have turns : EveryRingTurn _ dma 2 start g := rung rfl (.inl rfl) (by decide) (by decide)
  have found : fetched dma start g = some desc :=
    fetched_eq_some_iff.mpr ⟨rfl, by decide, by decide +kernel⟩
  have apart : Apart desc.dstAddr desc.length.toNat (descAddr start) 32 :=
    apart_of_order (by decide) (by decide) (by decide)
  have truthful := (turns (by decide)).1 desc found (by decide) apart
  have delivers := (truthfulStatus_iff found (by decide) (by decide) apart).mp truthful rfl
  have destination : desc.dstAddr = 0x2000 := by decide
  rw [destination] at delivers
  cases delivers

end EduDevices
