import EduDevices.Proof.CryptoRegisters
import EduDevices.Proof.FailedRead

namespace EduDevices

/-- The command changed neither the device nor the guest memory, and notified nobody. -/
structure Declined (s : EduPciState) (g : Guest DmaDescriptor)
    (next : EduPciState × Guest DmaDescriptor) : Prop where
  device : next.1 = s
  memory : next.2.memory = g.memory
  silent : ∃ later, next.2.trace = g.trace ++ later ∧ ∀ vector, .msixNotify vector ∉ later

/-- The engine read its source, wrote the transformed data to its destination and notified the host,
and is idle again. -/
def Performed (dma : Dma DmaDescriptor) (s : EduPciState) (g : Guest DmaDescriptor) (val : BitVec 64)
    (next : EduPciState × Guest DmaDescriptor) : Prop :=
  let read := pciDmaRead dma g s.cryptoSrc (stackBuffer dma g (min s.cryptoLen.toNat 4096))
  let written := pciDmaWrite dma read.2.2 s.cryptoDst (transformed s val read.2.1)
  next = (s, if s.parentObj.msixEnabled then msixNotify written.2 2 else written.2)

section Start

variable {s : EduPciState}

theorem cappedLen_whole_iff :
    cappedLen s.cryptoLen % 16 = 0 ↔ 4096 < s.cryptoLen.toNat ∨ s.cryptoLen.toNat % 16 = 0 := by
  have capped := toNat_cappedLen s.cryptoLen
  have blocks : (cappedLen s.cryptoLen % 16).toNat = (cappedLen s.cryptoLen).toNat % 16 :=
    BitVec.toNat_umod
  rw [← BitVec.toNat_inj, blocks, capped]
  show _ = 0 ↔ _
  omega

theorem eduCryptoStart_declined (dma : Dma DmaDescriptor) (g : Guest DmaDescriptor)
    (val : BitVec 64) (ragged : ¬ cappedLen s.cryptoLen % 16 = 0) :
    eduCryptoStart dma s g val = (s, g) := by
  unfold eduCryptoStart
  exact if_pos ragged

theorem eduCryptoStart_performed (dma : Dma DmaDescriptor) (g : Guest DmaDescriptor)
    (val : BitVec 64) (idle : s.cryptoBusy = 0) (whole : cappedLen s.cryptoLen % 16 = 0) :
    Performed dma s g val (eduCryptoStart dma s g val) := by
  have released : { s with cryptoBusy := 0 } = s := released_idle idle
  unfold Performed eduCryptoStart transformed
  rw [← toNat_cappedLen]
  dsimp only
  rw [if_neg (not_not.mpr whole)]
  split <;> exact Prod.ext released rfl

end Start

/-- A start is declined for the lengths that are no multiple of sixteen and performed for the others
exactly when the length is a multiple or fits the buffer, since the length is cut before it is
checked. -/
theorem cryptoStart_declines_iff (s : EduPciState) (val : BitVec 64) (size : Nat)
    (starts : val &&& cryptoCmdStart ≠ 0) (idle : s.cryptoBusy = 0) :
    (∀ dma g,
      (s.cryptoLen.toNat % 16 ≠ 0 → Declined s g (eduCryptoWrite dma s g regCryptoCmd val size)) ∧
      (s.cryptoLen.toNat % 16 = 0 →
        Performed dma s g val (eduCryptoWrite dma s g regCryptoCmd val size))) ↔
      (s.cryptoLen.toNat ≤ 4096 ∨ s.cryptoLen.toNat % 16 = 0) := by
  have command (dma : Dma DmaDescriptor) (g : Guest DmaDescriptor) :
      eduCryptoWrite dma s g regCryptoCmd val size = eduCryptoStart dma s g val :=
    if_pos ⟨starts, idle⟩
  simp only [command]
  constructor
  · intro decides
    by_contra neither
    obtain ⟨longer, ragged⟩ := not_or.mp neither
    have whole := cappedLen_whole_iff.mpr (.inl (Nat.lt_of_not_le longer))
    have filled : transformed s val (List.replicate (cappedLen s.cryptoLen).toNat 0) ≠ [] := by
      apply List.ne_nil_of_length_pos
      rw [length_transformed s val _ whole, toNat_cappedLen]
      omega
    obtain ⟨g, seen⟩ := written_seen s.cryptoSrc s.cryptoDst _ _ filled
    apply seen
    have kept := ((decides deadSource g).1 ragged).memory
    rw [eduCryptoStart_memory deadSource s g val whole] at kept
    dsimp only at kept
    rwa [deadSource_buffer] at kept
  · intro within dma g
    constructor
    · intro ragged
      have cut : ¬ cappedLen s.cryptoLen % 16 = 0 := by
        rw [cappedLen_whole_iff]
        omega
      rw [eduCryptoStart_declined dma g val cut]
      exact ⟨rfl, rfl, [], (List.append_nil _).symm, fun _ => List.not_mem_nil⟩
    · intro blocks
      exact eduCryptoStart_performed dma g val idle (cappedLen_whole_iff.mpr (.inr blocks))

/-- A length of two blocks. -/
theorem cryptoStart_declines_iff_twoBlocks :
    let s := { EduPciState.zeroed ⟨true⟩ with cryptoLen := 32, cryptoDst := 0x1000 }
    let dma : Dma DmaDescriptor := DmaPattern.reliable.dma fun _ _ => 0
    let g : Guest DmaDescriptor := ⟨fun _ => 0, []⟩
    Performed dma s g 3 (eduCryptoWrite dma s g regCryptoCmd 3 4) := by
  intro s dma g
  exact ((cryptoStart_declines_iff s 3 4 (by decide) rfl).mpr (.inl (by decide)) dma g).2 (by decide)

/-- A length one above the size of the buffer is no multiple of sixteen, and is performed. -/
theorem cryptoStart_accepts :
    let s := { EduPciState.zeroed ⟨true⟩ with cryptoLen := 4097, cryptoDst := 0x1000 }
    let dma : Dma DmaDescriptor := DmaPattern.reliable.dma fun _ _ => 0
    let g : Guest DmaDescriptor := ⟨fun _ => 0, []⟩
    s.cryptoLen.toNat % 16 ≠ 0 ∧ s.cryptoBusy = 0 ∧
      ¬ Declined s g (eduCryptoWrite dma s g regCryptoCmd 3 4) := by
  intro s dma g
  have performed : Performed dma s g 3 (eduCryptoWrite dma s g regCryptoCmd 3 4) :=
    eduCryptoStart_performed dma g 3 rfl (by decide)
  refine ⟨by decide, rfl, fun declined => ?_⟩
  obtain ⟨later, grown, silent⟩ := declined.silent
  apply silent 2
  rw [performed] at grown
  have notified : .msixNotify 2 ∈ g.trace ++ later := by
    rw [← grown]
    exact List.mem_append_right _ List.mem_cons_self
  exact notified

end EduDevices
