import EduDevices.Construction.Crypto
import EduDevices.Construction.Registers
import EduDevices.Proof.AesChaining
import EduDevices.Proof.RingStep

namespace EduDevices

/-- The handler leaves the guest memory alone whenever the read of its source fails. -/
def KeepsMemory (src : Address) (length : Nat)
    (handler : Dma DmaDescriptor → Guest DmaDescriptor → Guest DmaDescriptor) : Prop :=
  ∀ dma g fill, dma.readFault g.trace src length = some fill → (handler dma g).memory = g.memory

/-- Every read of this bus fails and leaves the buffer as it was, and every write succeeds. -/
def deadSource : Dma DmaDescriptor where
  readFault _ _ _ := some fun _ => none
  writeFault _ _ _ := none
  stack _ _ := 0

theorem keepsMemory_congr {src : Address} {length : Nat}
    {first second : Dma DmaDescriptor → Guest DmaDescriptor → Guest DmaDescriptor}
    (same : ∀ dma g, (first dma g).memory = (second dma g).memory) :
    KeepsMemory src length first ↔ KeepsMemory src length second := by
  simp only [KeepsMemory, same]

theorem pciDmaWrite_nil (dma : Dma DmaDescriptor) (g : Guest DmaDescriptor) (address : Address) :
    (pciDmaWrite dma g address []).2.memory = g.memory := by
  funext other
  exact pciDmaWrite_outside dma g address [] other (Nat.not_lt_zero _)

theorem deadSource_buffer (g : Guest DmaDescriptor) (src : Address) (length : Nat) :
    (pciDmaRead deadSource g src (stackBuffer deadSource g length)).2.1 =
      List.replicate length 0 := by
  apply List.ext_getElem
  · simp
  · intro index _ _
    simp [pciDmaRead, deadSource, stackBuffer]

/-- What is written after a failed read can be seen as soon as it has a byte. -/
theorem written_seen (src dst : Address) (length : Nat) (out : List Byte) (whole : out ≠ []) :
    ∃ g : Guest DmaDescriptor, (pciDmaWrite deadSource
      (pciDmaRead deadSource g src (stackBuffer deadSource g length)).2.2 dst out).2.memory ≠
        g.memory := by
  obtain ⟨first, rest, rfl⟩ := List.exists_cons_of_ne_nil whole
  refine ⟨⟨fun _ => first + 1, []⟩, fun same => ?_⟩
  have written := congrFun same dst
  have put : Memory.write (fun _ => first + 1) dst (first :: rest) dst = first := by
    simp [Memory.write, Memory.store]
  have moved : first = first + 1 := put.symm.trans written
  bv_omega

theorem cappedLen_eq_zero_iff (len : BitVec 32) : (cappedLen len).toNat = 0 ↔ len = 0 := by
  rw [toNat_cappedLen, ← BitVec.toNat_inj, show (0 : BitVec 32).toNat = 0 from rfl]
  omega

/-- The copy keeps the memory after a failed read only when there is nothing to copy. -/
theorem dmaCopy_keeps_iff (src dst : Address) (len : BitVec 32) :
    KeepsMemory src (cappedLen len).toNat (fun dma g => dmaCopy dma g src dst len) ↔ len = 0 := by
  constructor
  · intro keeps
    by_contra nonzero
    have moves : (cappedLen len).toNat ≠ 0 := mt (cappedLen_eq_zero_iff len).mp nonzero
    have whole : List.replicate (cappedLen len).toNat (0 : Byte) ≠ [] := by
      rw [ne_eq, List.replicate_eq_nil_iff]
      exact moves
    obtain ⟨g, seen⟩ := written_seen src dst (cappedLen len).toNat _ whole
    apply seen
    rw [← deadSource_buffer g src]
    exact keeps deadSource g (fun _ => none) rfl
  · rintro rfl dma g fill -
    have empty : (pciDmaRead dma g src (stackBuffer dma g (cappedLen 0).toNat)).2.1 = [] := by
      apply List.eq_nil_of_length_eq_zero
      rw [pciDmaRead_length, length_stackBuffer]
      rfl
    unfold dmaCopy
    dsimp only
    rw [empty, pciDmaWrite_nil, pciDmaRead_memory]

/-- The transformation that the encrypt bit of a command selects. -/
def transformed (s : EduPciState) (val : BitVec 64) (buf : List Byte) : List Byte :=
  if val &&& cryptoCmdEncrypt ≠ 0 then
    Aes.aesCbcEncrypt s.roundKeys s.cryptoIv buf (cappedLen s.cryptoLen).toNat
  else Aes.aesCbcDecrypt s.roundKeys s.cryptoIv buf (cappedLen s.cryptoLen).toNat

theorem length_transformed (s : EduPciState) (val : BitVec 64) (buf : List Byte)
    (whole : cappedLen s.cryptoLen % 16 = 0) :
    (transformed s val buf).length = (cappedLen s.cryptoLen).toNat := by
  have blocks : (cappedLen s.cryptoLen).toNat % 16 = 0 := congrArg BitVec.toNat whole
  obtain ⟨count, length⟩ := Nat.dvd_of_mod_eq_zero blocks
  unfold transformed
  rw [length, Nat.mul_comm]
  split
  · exact Aes.length_aesCbcEncrypt _ _ _ count
  · exact Aes.length_aesCbcDecrypt _ _ _ count

/-- An accepted operation writes out the transformed buffer, whatever the read left there. -/
theorem eduCryptoStart_memory (dma : Dma DmaDescriptor) (s : EduPciState)
    (g : Guest DmaDescriptor) (val : BitVec 64) (whole : cappedLen s.cryptoLen % 16 = 0) :
    (eduCryptoStart dma s g val).2.memory =
      let read := pciDmaRead dma g s.cryptoSrc
        (stackBuffer dma g (cappedLen s.cryptoLen).toNat)
      (pciDmaWrite dma read.2.2 s.cryptoDst (transformed s val read.2.1)).2.memory := by
  unfold eduCryptoStart transformed
  dsimp only
  rw [if_neg (not_not.mpr whole)]
  split <;> rfl

theorem eduCryptoStart_keeps_iff (s : EduPciState) (val : BitVec 64)
    (whole : cappedLen s.cryptoLen % 16 = 0) :
    KeepsMemory s.cryptoSrc (cappedLen s.cryptoLen).toNat
      (fun dma g => (eduCryptoStart dma s g val).2) ↔ s.cryptoLen = 0 := by
  have length := length_transformed s val
  constructor
  · intro keeps
    by_contra nonzero
    have moves : (cappedLen s.cryptoLen).toNat ≠ 0 :=
      mt (cappedLen_eq_zero_iff s.cryptoLen).mp nonzero
    have filled : transformed s val (List.replicate (cappedLen s.cryptoLen).toNat 0) ≠ [] := by
      apply List.ne_nil_of_length_pos
      rw [length _ whole]
      exact Nat.pos_of_ne_zero moves
    obtain ⟨g, seen⟩ := written_seen s.cryptoSrc s.cryptoDst _ _ filled
    apply seen
    have kept := keeps deadSource g (fun _ => none) rfl
    rw [eduCryptoStart_memory deadSource s g val whole] at kept
    dsimp only at kept
    rwa [deadSource_buffer] at kept
  · intro zero dma g fill _
    have empty (buf : List Byte) : transformed s val buf = [] := by
      apply List.eq_nil_of_length_eq_zero
      rw [length _ whole]
      exact (cappedLen_eq_zero_iff s.cryptoLen).mpr zero
    dsimp only
    rw [eduCryptoStart_memory dma s g val whole]
    dsimp only
    rw [empty, pciDmaWrite_nil, pciDmaRead_memory]

/-- A command that is not accepted keeps the memory, so that only an accepted one has to. -/
theorem keepsMemory_accepted {State : Type} {src : Address} {length : Nat}
    {condition empty : Prop} [Decidable condition]
    {accepted refused : Dma DmaDescriptor → Guest DmaDescriptor → State × Guest DmaDescriptor}
    (keeps : condition → (KeepsMemory src length (fun dma g => (accepted dma g).2) ↔ empty))
    (inert : ∀ dma g, (refused dma g).2 = g) :
    KeepsMemory src length (fun dma g => (if condition then accepted dma g else refused dma g).2) ↔
      (condition → empty) := by
  by_cases taken : condition
  · simp only [if_pos taken]
    exact (keeps taken).trans ⟨fun holds _ => holds, fun holds => holds taken⟩
  · simp only [if_neg taken]
    exact ⟨fun _ holds => absurd holds taken,
      fun _ dma g _ _ => congrArg Guest.memory (inert dma g)⟩

theorem eduPciWrite_keeps_iff (s : EduPciState) (val : BitVec 64) :
    KeepsMemory s.dmaSrc (cappedLen s.dmaLen).toNat
        (fun dma g => (eduPciWrite dma s g regDmaCmd val).2) ↔
      (val = 1 ∧ s.dmaBusy = 0 → s.dmaLen = 0) := by
  refine keepsMemory_accepted (fun _ => ?_) fun _ _ => rfl
  rw [← dmaCopy_keeps_iff s.dmaSrc s.dmaDst s.dmaLen]
  apply keepsMemory_congr
  intro dma g
  dsimp only
  split <;> rfl

theorem eduVfWrite_keeps_iff (s : EduPciVfState) (val : BitVec 64) :
    KeepsMemory s.dmaSrc (cappedLen s.dmaLen).toNat
        (fun dma g => (eduVfWrite dma s g regDmaCmd val).2) ↔
      (val = 1 ∧ s.dmaBusy = 0 → s.dmaLen = 0) :=
  keepsMemory_accepted (fun _ => dmaCopy_keeps_iff s.dmaSrc s.dmaDst s.dmaLen) fun _ _ => rfl

theorem eduCryptoWrite_keeps_iff (s : EduPciState) (val : BitVec 64) (size : Nat) :
    KeepsMemory s.cryptoSrc (cappedLen s.cryptoLen).toNat
        (fun dma g => (eduCryptoWrite dma s g regCryptoCmd val size).2) ↔
      (val &&& cryptoCmdStart ≠ 0 ∧ s.cryptoBusy = 0 → cappedLen s.cryptoLen % 16 = 0 →
        s.cryptoLen = 0) := by
  refine keepsMemory_accepted (fun _ => ?_) fun _ _ => rfl
  by_cases whole : cappedLen s.cryptoLen % 16 = 0
  · exact (eduCryptoStart_keeps_iff s val whole).trans ⟨fun zero _ => zero, fun zero => zero whole⟩
  · refine ⟨fun _ holds => absurd holds whole, fun _ dma g _ _ => ?_⟩
    unfold eduCryptoStart
    dsimp only
    rw [if_pos whole]

/-- The ring checks the result of the read, and so writes nothing but the status after a failure. -/
theorem eduRingProcessOne_keeps (dma : Dma DmaDescriptor) (s : EduPciState)
    (g : Guest DmaDescriptor) (desc : DmaDescriptor) (found : fetched dma s g = some desc)
    (sized : s.ringSize ≠ 0)
    (fails : dma.readFault (g.trace ++ [.dmaRead (descAddr s) (g.memory.read (descAddr s) 32) .ok] ++
      [.mark desc]) desc.srcAddr desc.len.toNat ≠ none) :
    ∃ next, eduRingProcessOne dma s g = .ok (advanced s, next) ∧
      ∀ address, ¬ Within (descAddr s + 0x18) 4 address →
        next.memory address = g.memory address := by
  refine ⟨_, eduRingProcessOne_executed found sized, fun address outside => ?_⟩
  let fetch := (g.log (.dmaRead (descAddr s) (g.memory.read (descAddr s) 32) .ok)).log (.mark desc)
  have refused : (transferred dma fetch desc).2.memory = fetch.memory := by
    obtain ⟨fill, fault⟩ := Option.ne_none_iff_exists'.mp fails
    have failed : dma.readFault fetch.trace desc.srcAddr
        (stackBuffer dma fetch desc.len.toNat).length = some fill := by
      rw [length_stackBuffer]
      exact fault
    unfold transferred
    rw [pciDmaRead_of_error failed]
    rfl
  rw [notified_memory, completed, pciDmaWrite_outside _ _ _ _ _ (by simpa using outside), refused]
  rfl

/-- The registers of both functions and the crypto engine keep the guest memory after every failed
read exactly when the command is not accepted or moves nothing, whatever the addresses. The ring
writes nothing but the status of its descriptor. -/
theorem failedRead_keeps_iff (s : EduPciState) (vf : EduPciVfState) (val : BitVec 64) (size : Nat) :
    (KeepsMemory s.dmaSrc (cappedLen s.dmaLen).toNat
        (fun dma g => (eduPciWrite dma s g regDmaCmd val).2) ↔
      (val = 1 ∧ s.dmaBusy = 0 → s.dmaLen = 0)) ∧
    (KeepsMemory vf.dmaSrc (cappedLen vf.dmaLen).toNat
        (fun dma g => (eduVfWrite dma vf g regDmaCmd val).2) ↔
      (val = 1 ∧ vf.dmaBusy = 0 → vf.dmaLen = 0)) ∧
    (KeepsMemory s.cryptoSrc (cappedLen s.cryptoLen).toNat
        (fun dma g => (eduCryptoWrite dma s g regCryptoCmd val size).2) ↔
      (val &&& cryptoCmdStart ≠ 0 ∧ s.cryptoBusy = 0 → cappedLen s.cryptoLen % 16 = 0 →
        s.cryptoLen = 0)) ∧
    ∀ dma g desc, fetched dma s g = some desc → s.ringSize ≠ 0 →
      dma.readFault (g.trace ++ [.dmaRead (descAddr s) (g.memory.read (descAddr s) 32) .ok] ++
        [.mark desc]) desc.srcAddr desc.len.toNat ≠ none →
      ∃ next, eduRingProcessOne dma s g = .ok (advanced s, next) ∧
        ∀ address, ¬ Within (descAddr s + 0x18) 4 address →
          next.memory address = g.memory address :=
  ⟨eduPciWrite_keeps_iff s val, eduVfWrite_keeps_iff vf val, eduCryptoWrite_keeps_iff s val size,
    fun dma g desc => eduRingProcessOne_keeps dma s g desc⟩

/-- A failed read of one byte puts the old contents of the local buffer into the guest memory, by
either function. -/
theorem failedRead_leaks :
    let dma : Dma DmaDescriptor := { deadSource with stack := fun _ _ => 0x5A }
    let g : Guest DmaDescriptor := ⟨fun _ => 0, []⟩
    let s := { EduPciState.zeroed ⟨true⟩ with dmaSrc := 0x1000, dmaDst := 0x2000, dmaLen := 1 }
    let vf : EduPciVfState := ⟨0, 0, 0x1000, 0x2000, 1, 0⟩
    (dma.readFault g.trace s.dmaSrc (cappedLen s.dmaLen).toNat).isSome ∧
      (eduPciWrite dma s g regDmaCmd 1).2.memory 0x2000 = 0x5A ∧
      (eduVfWrite dma vf g regDmaCmd 1).2.memory 0x2000 = 0x5A ∧ g.memory 0x2000 = 0 ∧
      ¬ KeepsMemory s.dmaSrc (cappedLen s.dmaLen).toNat
        (fun dma g => (eduPciWrite dma s g regDmaCmd 1).2) := by
  intro dma g s vf
  have leaked : (eduPciWrite dma s g regDmaCmd 1).2.memory 0x2000 = 0x5A := by decide
  refine ⟨rfl, leaked, by decide, rfl, fun keeps => ?_⟩
  have kept := congrFun (keeps dma g (fun _ => none) rfl) 0x2000
  rw [leaked] at kept
  exact absurd kept (by decide)

end EduDevices
