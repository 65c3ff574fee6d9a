import EduDevices.Construction.Ring

namespace EduDevices

variable {dma : Dma DmaDescriptor} {s : EduPciState} {g : Guest DmaDescriptor}

def DmaDescriptor.Valid (desc : DmaDescriptor) : Prop := desc.flags &&& descFlagValid ≠ 0

instance (desc : DmaDescriptor) : Decidable desc.Valid := inferInstanceAs (Decidable (_ ≠ _))

/-- The descriptor at the head, unless it cannot be read or is not valid. -/
def fetched (dma : Dma DmaDescriptor) (s : EduPciState) (g : Guest DmaDescriptor) :
    Option DmaDescriptor :=
  let desc := DmaDescriptor.decode (g.memory.read (descAddr s) 32)
  if dma.readFault g.trace (descAddr s) 32 = none ∧ desc.Valid then some desc else none

/-- The transfer of a descriptor and the status that it leaves. -/
def transferred (dma : Dma DmaDescriptor) (g : Guest DmaDescriptor) (desc : DmaDescriptor) :
    BitVec 32 × Guest DmaDescriptor :=
  let (res, buf, g) := pciDmaRead dma g desc.srcAddr (stackBuffer dma g desc.len.toNat)
  if res ≠ .ok then (descStatusError, g)
  else (descStatusComplete, (pciDmaWrite dma g desc.dstAddr buf).2)

/-- The guest after a descriptor was fetched, marked, transferred and given its status. -/
def completed (dma : Dma DmaDescriptor) (s : EduPciState) (g : Guest DmaDescriptor)
    (desc : DmaDescriptor) : Guest DmaDescriptor :=
  let bytes := g.memory.read (descAddr s) 32
  let fetch := (g.log (.dmaRead (descAddr s) bytes .ok)).log (.mark desc)
  let (status, g) := transferred dma fetch desc
  (pciDmaWrite dma g (descAddr s + 0x18) (littleEndian 4 status)).2

/-- The interrupt that a descriptor asks for is sent when message interrupts are on. -/
def notified (s : EduPciState) (desc : DmaDescriptor) (g : Guest DmaDescriptor) :
    Guest DmaDescriptor :=
  if desc.flags &&& descFlagInt ≠ 0 ∧ s.parentObj.msixEnabled then msixNotify g 1 else g

def EduPciState.withHead (s : EduPciState) (ringHead : BitVec 32) : EduPciState :=
  { s with ringHead }

def EduPciState.withTail (s : EduPciState) (ringTail : BitVec 32) : EduPciState :=
  { s with ringTail }

def EduPciState.withEnabled (s : EduPciState) (ringEnabled : BitVec 32) : EduPciState :=
  { s with ringEnabled }

section Registers

variable (s : EduPciState) (value : BitVec 32)

@[simp] theorem withHead_ringHead : (s.withHead value).ringHead = value := rfl
@[simp] theorem withHead_ringTail : (s.withHead value).ringTail = s.ringTail := rfl
@[simp] theorem withHead_ringSize : (s.withHead value).ringSize = s.ringSize := rfl
@[simp] theorem withHead_ringAddr : (s.withHead value).ringAddr = s.ringAddr := rfl
@[simp] theorem withHead_ringEnabled : (s.withHead value).ringEnabled = s.ringEnabled := rfl
@[simp] theorem withTail_ringHead : (s.withTail value).ringHead = s.ringHead := rfl
@[simp] theorem withTail_ringTail : (s.withTail value).ringTail = value := rfl
@[simp] theorem withTail_ringSize : (s.withTail value).ringSize = s.ringSize := rfl
@[simp] theorem withTail_ringAddr : (s.withTail value).ringAddr = s.ringAddr := rfl
@[simp] theorem withTail_ringEnabled : (s.withTail value).ringEnabled = s.ringEnabled := rfl
@[simp] theorem withEnabled_ringHead : (s.withEnabled value).ringHead = s.ringHead := rfl
@[simp] theorem withEnabled_ringTail : (s.withEnabled value).ringTail = s.ringTail := rfl
@[simp] theorem withEnabled_ringSize : (s.withEnabled value).ringSize = s.ringSize := rfl
@[simp] theorem withEnabled_ringAddr : (s.withEnabled value).ringAddr = s.ringAddr := rfl
@[simp] theorem withEnabled_ringEnabled : (s.withEnabled value).ringEnabled = value := rfl

end Registers

/-- The head moves to the next slot. -/
def advanced (s : EduPciState) : EduPciState := s.withHead ((s.ringHead + 1) % s.ringSize)

/-- The 32-bit product is exact for every slot of a ring up to `2^27` descriptors. -/
theorem slotOffset_exact (index : BitVec 32) (small : index.toNat < 2 ^ 27) :
    (32 * index).setWidth 64 = BitVec.ofNat 64 (32 * index.toNat) := by
  apply BitVec.eq_of_toNat_eq
  rw [BitVec.toNat_setWidth, BitVec.toNat_mul, BitVec.toNat_ofNat,
    show (32 : BitVec 32).toNat = 32 from rfl]
  omega

theorem sized_of_slot {s : EduPciState} {slot : Nat} (inside : slot < s.ringSize.toNat) :
    s.ringSize ≠ 0 := by
  intro zero
  rw [zero] at inside
  exact absurd inside (Nat.not_lt_zero slot)

theorem toNat_advanced (s : EduPciState) (head : s.ringHead.toNat < s.ringSize.toNat) :
    (advanced s).ringHead.toNat = (s.ringHead.toNat + 1) % s.ringSize.toNat := by
  have small : s.ringHead.toNat + 1 < 2 ^ 32 := by have := s.ringSize.isLt; omega
  rw [advanced, withHead_ringHead, BitVec.toNat_umod, BitVec.toNat_add,
    show (1 : BitVec 32).toNat = 1 from rfl, Nat.mod_eq_of_lt small]

theorem fetched_eq_some_iff {desc : DmaDescriptor} :
    fetched dma s g = some desc ↔
      dma.readFault g.trace (descAddr s) 32 = none ∧ desc.Valid ∧
        DmaDescriptor.decode (g.memory.read (descAddr s) 32) = desc := by
  simp only [fetched, Option.ite_none_right_eq_some, Option.some.injEq]
  constructor
  · rintro ⟨⟨readable, valid⟩, rfl⟩
    exact ⟨readable, valid, rfl⟩
  · rintro ⟨readable, valid, rfl⟩
    exact ⟨⟨readable, valid⟩, rfl⟩

/-- A rejected descriptor leaves nothing but its fetch. -/
theorem eduRingProcessOne_refused (rejected : fetched dma s g = none) :
    eduRingProcessOne dma s g =
      .ok (s, (pciDmaRead dma g (descAddr s) (stackBuffer dma g 32)).2.2) := by
  unfold eduRingProcessOne
  cases works : dma.readFault g.trace (descAddr s) 32 with
  | some fill =>
      have fails : dma.readFault g.trace (descAddr s) (stackBuffer dma g 32).length = some fill := by
        rw [length_stackBuffer, works]
      rw [pciDmaRead_of_error fails]
      rfl
  | none =>
      have invalid : ¬ (DmaDescriptor.decode (g.memory.read (descAddr s) 32)).Valid := by
        intro valid
        rw [fetched, if_pos ⟨works, valid⟩] at rejected
        cases rejected
      rw [pciDmaRead_of_ok (by simpa using works), length_stackBuffer]
      simp only [ne_eq, not_true_eq_false, if_false, if_pos (not_not.mp invalid)]

/-- The guest sees the fetch of a rejected descriptor in its trace only. -/
theorem eduRingProcessOne_rejected (rejected : fetched dma s g = none) :
    ∃ data result, data.length = 32 ∧ eduRingProcessOne dma s g =
      .ok (s, g.log (.dmaRead (descAddr s) data result)) := by
  have turn := eduRingProcessOne_refused rejected
  have length := pciDmaRead_length dma g (descAddr s) (stackBuffer dma g 32)
  unfold pciDmaRead at turn length
  split at turn <;> exact ⟨_, _, by simp, turn⟩

/-- An accepted descriptor is completed and the head moves on. -/
theorem eduRingProcessOne_executed {desc : DmaDescriptor} (found : fetched dma s g = some desc)
    (sized : s.ringSize ≠ 0) :
    eduRingProcessOne dma s g = .ok (advanced s, notified s desc (completed dma s g desc)) := by
  obtain ⟨readable, valid, rfl⟩ := fetched_eq_some_iff.mp found
  unfold eduRingProcessOne
  rw [pciDmaRead_of_ok (by simpa using readable), length_stackBuffer]
  simp only [ne_eq, not_true_eq_false, if_false, if_neg valid, modulo, if_neg sized]
  unfold completed transferred notified advanced
  split <;> rfl

theorem transferred_marks (dma : Dma DmaDescriptor) (g : Guest DmaDescriptor)
    (desc : DmaDescriptor) : g.Marks (transferred dma g desc).2 [] := by
  have read := marks_pciDmaRead dma g desc.srcAddr (stackBuffer dma g desc.len.toNat)
  unfold transferred
  dsimp only
  split
  · exact read
  · exact read.trans (marks_pciDmaWrite dma _ _ _)

/-- The transfer writes nowhere but to the destination. -/
theorem transferred_memory (dma : Dma DmaDescriptor) (g : Guest DmaDescriptor)
    (desc : DmaDescriptor) (address : Address)
    (outside : ¬ Within desc.dstAddr desc.len.toNat address) :
    (transferred dma g desc).2.memory address = g.memory address := by
  unfold transferred
  dsimp only
  split
  · rw [pciDmaRead_memory]
  · rw [pciDmaWrite_outside _ _ _ _ _ (by simpa using outside), pciDmaRead_memory]

theorem notified_memory (s : EduPciState) (desc : DmaDescriptor) (g : Guest DmaDescriptor) :
    (notified s desc g).memory = g.memory := by
  unfold notified
  split <;> rfl

theorem notified_marks (s : EduPciState) (desc : DmaDescriptor) (g : Guest DmaDescriptor) :
    g.Marks (notified s desc g) [] := by
  unfold notified
  split
  · exact g.marks_log _
  · exact .refl g

/-- An executed descriptor is marked once. -/
theorem completed_marks (dma : Dma DmaDescriptor) (s : EduPciState) (g : Guest DmaDescriptor)
    (desc : DmaDescriptor) : g.Marks (notified s desc (completed dma s g desc)) [desc] := by
  let fetch := g.log (.dmaRead (descAddr s) (g.memory.read (descAddr s) 32) .ok)
  have marked : g.Marks (fetch.log (.mark desc)) [desc] :=
    (g.marks_log _).trans (fetch.marks_log (.mark desc))
  have moved := marked.trans (transferred_marks dma (fetch.log (.mark desc)) desc)
  have done := moved.trans (marks_pciDmaWrite dma
    (transferred dma (fetch.log (.mark desc)) desc).2 (descAddr s + 0x18)
    (littleEndian 4 (transferred dma (fetch.log (.mark desc)) desc).1))
  exact done.trans (notified_marks s desc (completed dma s g desc))

/-- An executed descriptor writes its destination and its status word only. -/
theorem completed_memory (dma : Dma DmaDescriptor) (s : EduPciState) (g : Guest DmaDescriptor)
    (desc : DmaDescriptor) (address : Address)
    (apart : ¬ Within desc.dstAddr desc.len.toNat address)
    (unread : ¬ Within (descAddr s + 0x18) 4 address) :
    (notified s desc (completed dma s g desc)).memory address = g.memory address := by
  rw [notified_memory, completed, pciDmaWrite_outside _ _ _ _ _ (by simpa using unread),
    transferred_memory _ _ _ _ apart]
  rfl

/-- A ring whose head has met its tail takes no turn. -/
theorem ringLoop_level (remaining : Nat) (level : s.ringHead = s.ringTail) :
    ringLoop dma remaining s g = .ok (s, g) := by
  cases remaining with
  | zero => rfl
  | succ remaining => rw [ringLoop, if_neg (not_not.mpr level)]

/-- A tail write to a ring that has a size is a doorbell. -/
theorem eduRingWrite_tail (val : BitVec 64) (sized : s.ringSize ≠ 0) :
    eduRingWrite dma s g regRingTail val =
      let rung := s.withTail ((val % s.ringSize.setWidth 64).setWidth 32)
      if s.ringEnabled ≠ 0 then eduRingProcess dma rung g else .ok (rung, g) := by
  have divisor : s.ringSize.setWidth 64 ≠ 0 := by
    intro zero
    exact sized (by bv_omega)
  simp only [eduRingWrite, modulo, if_neg divisor]
  rfl

/-- The ring takes a tail modulo its size. -/
theorem toNat_rung (val size : BitVec 32) :
    ((val.setWidth 64 % size.setWidth 64).setWidth 32).toNat = val.toNat % size.toNat := by
  have below : val.toNat % size.toNat < 2 ^ 32 := (Nat.mod_le _ _).trans_lt val.isLt
  rw [BitVec.toNat_setWidth, BitVec.toNat_umod, BitVec.toNat_setWidth, BitVec.toNat_setWidth,
    Nat.mod_eq_of_lt (val.isLt.trans (by decide)), Nat.mod_eq_of_lt (size.isLt.trans (by decide)),
    Nat.mod_eq_of_lt below]

/-- The enable bit of a control value decides alone. -/
theorem enable_cases (val : BitVec 64) :
    (val &&& ringCtrlEnable).setWidth 32 = 0 ∨ (val &&& ringCtrlEnable).setWidth 32 = 1 := by
  have bit : (val &&& ringCtrlEnable) = (BitVec.ofBool (val.getLsbD 0)).setWidth 64 := by
    apply BitVec.eq_of_getLsbD_eq
    intro position inside
    by_cases first : position = 0
    · subst first
      simp [ringCtrlEnable]
    · simp [ringCtrlEnable, first, BitVec.getLsbD_one]
  rw [bit]
  cases val.getLsbD 0
  · exact .inl rfl
  · exact .inr rfl

theorem eduRingWrite_ctrl (val : BitVec 64) :
    eduRingWrite dma s g regRingCtrl val =
      let switched := s.withEnabled ((val &&& ringCtrlEnable).setWidth 32)
      if switched.ringEnabled ≠ 0 ∧ switched.ringHead ≠ switched.ringTail then
        eduRingProcess dma switched g
      else .ok (switched, g) := rfl

end EduDevices
