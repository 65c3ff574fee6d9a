import EduDevices.Library.CircularQueue
import EduDevices.Proof.RingSafety

namespace EduDevices

open CircularQueue (slotAt within_queue)

/-- The representation of the ring: an unsized ring is empty, and the indices of a sized ring lie
in it. -/
structure RingInvariant (s : EduPciState) : Prop where
  size : s.ringSize = 0 ∨ ∃ power ≤ 8, s.ringSize.toNat = 2 ^ power
  enabled : s.ringEnabled = 0 ∨ s.ringEnabled = 1
  empty : s.ringSize = 0 → s.ringHead = 0 ∧ s.ringTail = 0
  inside : s.ringSize ≠ 0 → s.ringHead < s.ringSize ∧ s.ringTail < s.ringSize

theorem RingInvariant.bounded {s : EduPciState} (invariant : RingInvariant s) :
    s.ringSize.toNat ≤ 256 := by
  rcases invariant.size with zero | ⟨power, small, size⟩
  · rw [zero]
    decide
  · rw [size]
    exact Nat.pow_le_pow_right (by decide) small

/-- The byte offset of the head does not wrap in 32 bits. -/
theorem RingInvariant.product {s : EduPciState} (invariant : RingInvariant s) :
    (s.ringHead * descSize).toNat = s.ringHead.toNat * 32 := by
  have bounded := invariant.bounded
  have small : s.ringHead.toNat ≤ 256 := by
    by_cases zero : s.ringSize = 0
    · rw [(invariant.empty zero).1]
      decide
    · have inside : s.ringHead.toNat < s.ringSize.toNat := (invariant.inside zero).1
      omega
  rw [BitVec.toNat_mul, show descSize.toNat = 32 from rfl]
  exact Nat.mod_eq_of_lt (by omega)

/-- The accepted sizes are the powers of two up to 256. -/
theorem ringSizeAccepted_power {val : BitVec 64} (accepted : ringSizeAccepted val) :
    ∃ power ≤ 8, (val.setWidth 32).toNat = 2 ^ power := by
  obtain ⟨positive, bounded, single⟩ := (ringSizeAccepted_iff val).mp accepted
  have powers : ∀ size < 257, 0 < size → BitVec.ofNat 64 size &&& (BitVec.ofNat 64 size - 1) = 0 →
      ∃ power ≤ 8, size = 2 ^ power := by decide +kernel
  obtain ⟨power, small, size⟩ := powers val.toNat (by omega) positive
    (by rw [BitVec.ofNat_toNat, BitVec.setWidth_eq]; exact single)
  refine ⟨power, small, ?_⟩
  rw [BitVec.toNat_setWidth, ← size]
  omega

/-- The address of a head in the ring: its offset is exact and its bytes lie in the ring. -/
structure RingSlot (base : Address) (size : Nat) (slot : Address) : Prop where
  exact : ∃ head : BitVec 32, head.toNat < size ∧ (head * descSize).toNat = head.toNat * 32 ∧
    slot = base + (head * descSize).setWidth 64
  inside : ∀ index < 32, Within base (32 * size) (slot + BitVec.ofNat 64 index)

/-- A turn of the loop fetches a descriptor from a slot. When it executes the descriptor it moves
the data and then writes the status into the same slot. -/
inductive RingTurn (base : Address) (size : Nat) : List (Event DmaDescriptor) → Prop
  | rejected (slot : Address) (data : List Byte) (result : MemTxResult)
      (whole : data.length = 32) (placed : RingSlot base size slot) :
      RingTurn base size [.dmaRead slot data result]
  | executed (slot : Address) (bytes : List Byte) (desc : DmaDescriptor)
      (moved : List (Event DmaDescriptor)) (status : BitVec 32) (result : MemTxResult)
      (notice : List (Event DmaDescriptor)) (whole : bytes.length = 32)
      (decoded : DmaDescriptor.decode bytes = desc)
      (source : ∃ data result, moved = [.dmaRead desc.srcAddr data result] ∨
        ∃ written, moved = [.dmaRead desc.srcAddr data result, .dmaWrite desc.dstAddr data written])
      (notices : notice = [] ∨ notice = [.msixNotify 1]) (placed : RingSlot base size slot) :
      RingTurn base size ([.dmaRead slot bytes .ok, .mark desc] ++ moved ++
        [.dmaWrite (slot + 0x18) (littleEndian 4 status) result] ++ notice)

/-- The trace grew by turns of the loop, all of them in the ring. -/
def RingTurns (base : Address) (size : Nat) (g next : Guest DmaDescriptor) : Prop :=
  g.Turns (RingTurn base size) next

section Loop

variable (dma : Dma DmaDescriptor) {s : EduPciState} (g : Guest DmaDescriptor)

/-- The slot of the head lies in the ring. -/
theorem descAddr_slot (bounded : s.ringSize.toNat ≤ 256)
    (head : s.ringHead.toNat < s.ringSize.toNat) :
    RingSlot s.ringAddr s.ringSize.toNat (descAddr s) where
  exact := by
    refine ⟨s.ringHead, head, ?_, rfl⟩
    rw [BitVec.toNat_mul, show descSize.toNat = 32 from rfl]
    exact Nat.mod_eq_of_lt (by omega)
  inside := by
    intro index inside
    have slot : descAddr s = slotAt s.ringAddr 32 s.ringSize.toNat s.ringHead.toNat := by
      rw [descAddr, BitVec.mul_comm, show descSize = (32 : BitVec 32) from rfl,
        slotOffset_exact _ (by omega), slotAt, Nat.mod_eq_of_lt head]
    rw [slot]
    exact within_queue inside (Nat.zero_lt_of_lt head)

theorem transferred_trace (desc : DmaDescriptor) :
    ∃ moved, (transferred dma g desc).2.trace = g.trace ++ moved ∧
      ∃ data result, moved = [.dmaRead desc.srcAddr data result] ∨
        ∃ written, moved =
          [.dmaRead desc.srcAddr data result, .dmaWrite desc.dstAddr data written] := by
  unfold transferred
  generalize fetch : pciDmaRead dma g desc.srcAddr (stackBuffer dma g desc.len.toNat) = outcome
  obtain ⟨result, data, guest⟩ := outcome
  have logged := pciDmaRead_trace dma g desc.srcAddr (stackBuffer dma g desc.len.toNat)
  rw [fetch] at logged
  dsimp only at logged ⊢
  split
  · exact ⟨_, logged, data, result, .inl rfl⟩
  · refine ⟨[.dmaRead desc.srcAddr data result,
      .dmaWrite desc.dstAddr data (pciDmaWrite dma guest desc.dstAddr data).1], ?_, data, result,
      .inr ⟨_, rfl⟩⟩
    rw [pciDmaWrite_trace, logged, List.append_assoc]
    rfl

/-- The trace of an executed descriptor, from its fetch to its status. -/
theorem completed_trace (s : EduPciState) (desc : DmaDescriptor) :
    ∃ moved, ∃ status : BitVec 32, ∃ result, (completed dma s g desc).trace = g.trace ++
        ([.dmaRead (descAddr s) (g.memory.read (descAddr s) 32) .ok, .mark desc] ++ moved ++
          [.dmaWrite (descAddr s + 0x18) (littleEndian 4 status) result]) ∧
      ∃ data result, moved = [.dmaRead desc.srcAddr data result] ∨
        ∃ written, moved =
          [.dmaRead desc.srcAddr data result, .dmaWrite desc.dstAddr data written] := by
  let fetch := (g.log (.dmaRead (descAddr s) (g.memory.read (descAddr s) 32) .ok)).log (.mark desc)
  obtain ⟨moved, transfer, source⟩ := transferred_trace dma fetch desc
  refine ⟨moved, (transferred dma fetch desc).1, (pciDmaWrite dma (transferred dma fetch desc).2
    (descAddr s + 0x18) (littleEndian 4 (transferred dma fetch desc).1)).1, ?_, source⟩
  rw [completed, pciDmaWrite_trace, transfer]
  simp only [fetch, Guest.log_trace, List.append_assoc, List.cons_append, List.nil_append]

theorem notified_trace (s : EduPciState) (desc : DmaDescriptor) :
    ∃ notice, (notified s desc g).trace = g.trace ++ notice ∧
      (notice = [] ∨ notice = [.msixNotify 1]) := by
  unfold notified
  split
  · exact ⟨_, rfl, .inr rfl⟩
  · exact ⟨[], (List.append_nil _).symm, .inl rfl⟩

/-- A turn at a head inside the ring keeps the head and its accesses inside. -/
theorem eduRingProcessOne_turn (bounded : s.ringSize.toNat ≤ 256)
    (head : s.ringHead.toNat < s.ringSize.toNat) :
    ∃ ringHead next, eduRingProcessOne dma s g = .ok (s.withHead ringHead, next) ∧
      ringHead.toNat < s.ringSize.toNat ∧ RingTurns s.ringAddr s.ringSize.toNat g next := by
  have slot := descAddr_slot bounded head
  cases found : fetched dma s g with
  | none =>
      obtain ⟨data, result, whole, turn⟩ := eduRingProcessOne_rejected found
      exact ⟨s.ringHead, _, turn, head,
        .one (.rejected (descAddr s) data result whole slot) rfl⟩
  | some desc =>
      refine ⟨_, _, eduRingProcessOne_executed found (sized_of_slot head), ?_, ?_⟩
      · rw [← withHead_ringHead s ((s.ringHead + 1) % s.ringSize), ← advanced, toNat_advanced s head]
        exact Nat.mod_lt _ (Nat.zero_lt_of_lt head)
      · obtain ⟨-, -, decoded⟩ := fetched_eq_some_iff.mp found
        obtain ⟨moved, status, result, done, source⟩ := completed_trace dma g s desc
        obtain ⟨notice, noticed, kinds⟩ := notified_trace (completed dma s g desc) s desc
        refine .one (.executed (descAddr s) _ desc moved status result notice
          (Memory.length_read ..) decoded source kinds slot) ?_
        rw [noticed, done]
        simp only [List.append_assoc]

theorem ringLoop_turns (remaining : Nat) (bounded : s.ringSize.toNat ≤ 256)
    (head : s.ringHead.toNat < s.ringSize.toNat) :
    ∃ ringHead next, ringLoop dma remaining s g = .ok (s.withHead ringHead, next) ∧
      ringHead.toNat < s.ringSize.toNat ∧ RingTurns s.ringAddr s.ringSize.toNat g next := by
  induction remaining generalizing s g with
  | zero => exact ⟨s.ringHead, g, rfl, head, .none _ rfl⟩
  | succ remaining ih =>
      unfold ringLoop
      split
      · obtain ⟨ringHead, next, turn, inside, taken⟩ := eduRingProcessOne_turn dma g bounded head
        obtain ⟨last, final, looped, still, later⟩ := ih next (s := s.withHead ringHead) bounded inside
        rw [turn]
        exact ⟨last, final, looped, still, taken.trans later⟩
      · exact ⟨s.ringHead, g, rfl, head, .none _ rfl⟩

end Loop

section Registers

variable {s : EduPciState} (invariant : RingInvariant s)

include invariant

theorem RingInvariant.withHead (sized : s.ringSize ≠ 0) {ringHead : BitVec 32}
    (inside : ringHead.toNat < s.ringSize.toNat) : RingInvariant (s.withHead ringHead) where
  size := invariant.size
  enabled := invariant.enabled
  empty zero := absurd zero sized
  inside _ := ⟨inside, (invariant.inside sized).2⟩

theorem RingInvariant.withTail (sized : s.ringSize ≠ 0) {ringTail : BitVec 32}
    (inside : ringTail.toNat < s.ringSize.toNat) : RingInvariant (s.withTail ringTail) where
  size := invariant.size
  enabled := invariant.enabled
  empty zero := absurd zero sized
  inside _ := ⟨(invariant.inside sized).1, inside⟩

theorem RingInvariant.withEnabled {ringEnabled : BitVec 32}
    (bit : ringEnabled = 0 ∨ ringEnabled = 1) : RingInvariant (s.withEnabled ringEnabled) where
  size := invariant.size
  enabled := bit
  empty := invariant.empty
  inside := invariant.inside

theorem RingInvariant.withAddr (ringAddr : BitVec 64) : RingInvariant { s with ringAddr } where
  size := invariant.size
  enabled := invariant.enabled
  empty := invariant.empty
  inside := invariant.inside

/-- A new size starts the ring over at its first slot. -/
theorem RingInvariant.resized {val : BitVec 64} (accepted : ringSizeAccepted val) :
    RingInvariant { s with ringSize := val.setWidth 32, ringHead := 0, ringTail := 0 } where
  size := .inr (ringSizeAccepted_power accepted)
  enabled := invariant.enabled
  empty zero := absurd zero (ringSizeAccepted_nonzero accepted)
  inside nonzero := by
    have positive : (0 : BitVec 32) < val.setWidth 32 := by bv_omega
    exact ⟨positive, positive⟩

end Registers

theorem eduRingProcess_turns (dma : Dma DmaDescriptor) {s : EduPciState}
    (g : Guest DmaDescriptor) (invariant : RingInvariant s) :
    ∃ ringHead next, eduRingProcess dma s g = .ok (s.withHead ringHead, next) ∧
      RingInvariant (s.withHead ringHead) ∧ RingTurns s.ringAddr s.ringSize.toNat g next := by
  unfold eduRingProcess
  split
  · exact ⟨s.ringHead, g, rfl, invariant, .none _ rfl⟩
  · next ready =>
      have sized : s.ringSize ≠ 0 := fun zero => ready (.inr zero)
      obtain ⟨ringHead, next, looped, inside, turns⟩ := ringLoop_turns dma g s.ringSize.toNat
        invariant.bounded (invariant.inside sized).1
      exact ⟨ringHead, next, looped, invariant.withHead sized inside, turns⟩

/-- Every write keeps the invariant, and what it makes the device do lies in the ring. -/
theorem ringAccess_invariant (dma : Dma DmaDescriptor) {s : EduPciState}
    (g : Guest DmaDescriptor) (write : HostWrite) (invariant : RingInvariant s)
    (sized : write.addr = regRingTail → s.ringSize ≠ 0) :
    ∃ next, ringAccess dma (s, g) write = .ok next ∧ RingInvariant next.1 ∧
      RingTurns s.ringAddr s.ringSize.toNat g next.2 := by
  obtain ⟨host, addr, val⟩ := write
  have unmoved : RingTurns s.ringAddr s.ringSize.toNat g (g.rewrite host) := .none _ rfl
  unfold ringAccess
  dsimp only at sized ⊢
  by_cases tail : addr = regRingTail
  · subst tail
    rw [eduRingWrite_tail _ (sized rfl)]
    have inside : ((val.setWidth 64 % s.ringSize.setWidth 64).setWidth 32).toNat <
        s.ringSize.toNat := by
      rw [toNat_rung]
      exact Nat.mod_lt _ (by have := sized rfl; bv_omega)
    have rung := invariant.withTail (sized rfl) inside
    dsimp only
    split
    · obtain ⟨ringHead, next, returned, kept, turns⟩ :=
        eduRingProcess_turns dma (g.rewrite host) rung
      exact ⟨_, returned, kept, turns⟩
    · exact ⟨_, rfl, rung, unmoved⟩
  by_cases ctrl : addr = regRingCtrl
  · subst ctrl
    rw [eduRingWrite_ctrl]
    have switched := invariant.withEnabled (enable_cases (val.setWidth 64))
    dsimp only
    split
    · obtain ⟨ringHead, next, returned, kept, turns⟩ :=
        eduRingProcess_turns dma (g.rewrite host) switched
      exact ⟨_, returned, kept, turns⟩
    · exact ⟨_, rfl, switched, unmoved⟩
  unfold eduRingWrite
  split
  · exact ⟨_, rfl, invariant.withAddr _, unmoved⟩
  · exact ⟨_, rfl, invariant.withAddr _, unmoved⟩
  · split
    · next accepted => exact ⟨_, rfl, invariant.resized accepted, unmoved⟩
    · exact ⟨_, rfl, invariant, unmoved⟩
  · contradiction
  · contradiction
  · exact ⟨_, rfl, invariant, unmoved⟩

theorem RingInvariant.zeroed (parentObj : PCIDevice) :
    RingInvariant (EduPciState.zeroed parentObj) where
  size := .inl rfl
  enabled := .inl rfl
  empty _ := ⟨rfl, rfl⟩
  inside sized := absurd rfl sized

theorem DoorbellsSized.initial {writes : List HostWrite} {write : HostWrite}
    (sized : DoorbellsSized (writes ++ [write])) : DoorbellsSized writes := by
  intro before doorbell after split
  exact sized before doorbell (after ++ [write]) (by rw [split]; simp)

/-- A run keeps the invariant, and it leaves a size exactly when a write of it set one. -/
theorem powerOn_invariant (dma : Dma DmaDescriptor) (parentObj : PCIDevice)
    (g : Guest DmaDescriptor) {writes : List HostWrite} (sized : DoorbellsSized writes) :
    ∃ next, Execution.run (ringAccess dma) (EduPciState.zeroed parentObj, g) writes = .ok next ∧
      RingInvariant next.1 ∧ (next.1.ringSize ≠ 0 ↔ ∃ sizing ∈ writes, sizing.Sizes) := by
  induction writes using List.reverseRecOn with
  | nil => exact ⟨_, rfl, .zeroed parentObj, by simp [EduPciState.zeroed]⟩
  | append_singleton writes write ih =>
      obtain ⟨⟨s, middle⟩, reached, invariant, sizes⟩ := ih sized.initial
      have rung : write.addr = regRingTail → s.ringSize ≠ 0 := fun doorbell =>
        sizes.mpr (sized writes write [] rfl doorbell)
      obtain ⟨next, taken, kept, -⟩ := ringAccess_invariant dma middle write invariant rung
      obtain ⟨same, again, grown, -⟩ := ringAccess_returns dma s middle write rung
      obtain rfl := Except.ok.inj (taken.symm.trans again)
      refine ⟨next, ?_, kept, ?_⟩
      · rw [Execution.run_append, reached]
        exact (Execution.run_cons_of_ok [] taken)
      · rw [grown, sizes]
        simp [or_and_right, exists_or]

/-- In every state that the ring reaches from power-on, the invariant holds and the offset of the
head is exact. The next write returns unless it is a doorbell without a size, and whatever it makes
the device fetch or complete lies in the ring. -/
theorem ringInvariant_reachable (dma : Dma DmaDescriptor) (parentObj : PCIDevice)
    (g : Guest DmaDescriptor) (writes : List HostWrite) (sized : DoorbellsSized writes) :
    ∃ s middle, Execution.run (ringAccess dma) (EduPciState.zeroed parentObj, g) writes =
        .ok (s, middle) ∧
      RingInvariant s ∧ (s.ringHead * descSize).toNat = s.ringHead.toNat * 32 ∧
      ∀ write : HostWrite,
        (write.addr = regRingTail → ∃ sizing ∈ writes, sizing.Sizes) →
        ∃ next, ringAccess dma (s, middle) write = .ok next ∧
          RingTurns s.ringAddr s.ringSize.toNat middle next.2 := by
  obtain ⟨⟨s, middle⟩, reached, invariant, sizes⟩ := powerOn_invariant dma parentObj g sized
  refine ⟨s, middle, reached, invariant, invariant.product, ?_⟩
  intro write earlier
  obtain ⟨next, taken, -, turns⟩ := ringAccess_invariant dma middle write invariant
    fun doorbell => sizes.mpr (earlier doorbell)
  exact ⟨next, taken, turns⟩

/-- A ring of four descriptors is rung beyond its size and then cut to two. -/
def resizing : List HostWrite :=
  [⟨id, regRingSize, 4⟩, ⟨id, regRingCtrl, 1⟩, ⟨id, regRingTail, 7⟩, ⟨id, regRingSize, 2⟩]

theorem ringInvariant_resizing :
    let dma : Dma DmaDescriptor := DmaPattern.reliable.dma fun _ _ => 0
    let g : Guest DmaDescriptor := ⟨fun _ => 1, []⟩
    ∃ s middle, Execution.run (ringAccess dma) (EduPciState.zeroed ⟨true⟩, g) resizing =
        .ok (s, middle) ∧
      RingInvariant s ∧ (s.ringHead * descSize).toNat = s.ringHead.toNat * 32 ∧
      ∀ write : HostWrite,
        (write.addr = regRingTail → ∃ sizing ∈ resizing, sizing.Sizes) →
        ∃ next, ringAccess dma (s, middle) write = .ok next ∧
          RingTurns s.ringAddr s.ringSize.toNat middle next.2 := by
  have sized : DoorbellsSized resizing := by
    intro before write after split doorbell
    cases before with
    | nil =>
        obtain ⟨rfl, -⟩ := List.cons.inj split
        exact absurd doorbell (by decide)
    | cons first before =>
        obtain ⟨rfl, -⟩ := List.cons.inj split
        exact ⟨_, List.mem_cons_self, by decide⟩
  exact ringInvariant_reachable _ _ _ resizing sized

end EduDevices
