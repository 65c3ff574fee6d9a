import EduDevices.Proof.CryptoSecrecy

namespace EduDevices

/-- The key, the IV and the round keys as they stand one after the other. -/
def EduPciState.cryptoFile (s : EduPciState) : Vector Byte (16 + 16 + 176) :=
  s.cryptoKey ++ s.cryptoIv ++ s.roundKeys

/-- The access addresses the byte at this index of the block that starts at the base. -/
def Addresses (base addr : BitVec 64) (width : AccessWidth) (index : Nat) : Prop :=
  (addr - base).toNat ≤ index ∧ index < (addr - base).toNat + width.bytes

/-- A write to the key changes the addressed bytes of it, and the schedule to the one of the key. -/
structure KeyConfined (s next : EduPciState) (addr : BitVec 64) (width : AccessWidth) : Prop where
  key : ∀ i (_ : i < 16), ¬ Addresses regCryptoKey addr width i → next.cryptoKey[i] = s.cryptoKey[i]
  iv : next.cryptoIv = s.cryptoIv
  roundKeys : next.roundKeys = s.roundKeys ∨ next.roundKeys = Aes.aesKeyExpand next.cryptoKey

/-- A write to the IV changes the addressed bytes of it only. -/
structure IvConfined (s next : EduPciState) (addr : BitVec 64) (width : AccessWidth) : Prop where
  key : next.cryptoKey = s.cryptoKey
  iv : ∀ i (_ : i < 16), ¬ Addresses regCryptoIv addr width i → next.cryptoIv[i] = s.cryptoIv[i]
  roundKeys : next.roundKeys = s.roundKeys

/-- The bytes that follow the addressed ones in their group of four are zero. -/
def SpillsOnZeros (s : EduPciState) (addr : BitVec 64) (width : AccessWidth) : Prop :=
  ∀ i (_ : i < 16 + 16 + 176), (addr - regCryptoKey).toNat + width.bytes ≤ i →
    i < (addr - regCryptoKey).toNat + 4 → s.cryptoFile[i] = 0

section File

variable (s : EduPciState)

theorem EduPciState.cryptoKey_file (i : Nat) (inside : i < 16) :
    s.cryptoFile[i] = s.cryptoKey[i] := by
  rw [show s.cryptoFile[i] = (s.cryptoKey ++ s.cryptoIv ++ s.roundKeys)[i] from rfl, getElem_joined,
    dif_pos inside]

theorem EduPciState.cryptoIv_file (i : Nat) (inside : i < 16) :
    s.cryptoFile[16 + i] = s.cryptoIv[i] := by
  rw [show s.cryptoFile[16 + i] = (s.cryptoKey ++ s.cryptoIv ++ s.roundKeys)[16 + i] from rfl,
    getElem_joined, dif_neg (by omega), dif_pos (by omega)]
  simp only [Nat.add_sub_cancel_left]
  rfl

theorem EduPciState.roundKeys_file (i : Nat) (inside : i < 176) :
    s.cryptoFile[32 + i] = s.roundKeys[i] := by
  rw [show s.cryptoFile[32 + i] = (s.cryptoKey ++ s.cryptoIv ++ s.roundKeys)[32 + i] from rfl,
    getElem_joined, dif_neg (by omega), dif_neg (by omega)]
  simp only [Nat.add_sub_cancel_left]
  rfl

/-- The copy acts on the three arrays as on one. -/
theorem cryptoFile_memcpyCrypto (offset : Nat) (data : List Byte) :
    (s.memcpyCrypto offset data).cryptoFile = memcpy s.cryptoFile offset data := by
  apply Vector.ext
  intro i inside
  rcases Nat.lt_or_ge i 16 with key | beyond
  · rw [EduPciState.cryptoKey_file _ i key]
    simp only [EduPciState.memcpyCrypto, Vector.getElem_ofFn]
    rfl
  · obtain ⟨j, rfl⟩ := Nat.exists_eq_add_of_le beyond
    rcases Nat.lt_or_ge j 16 with iv | later
    · rw [EduPciState.cryptoIv_file _ j iv]
      simp only [EduPciState.memcpyCrypto, Vector.getElem_ofFn]
      rfl
    · obtain ⟨k, rfl⟩ := Nat.exists_eq_add_of_le later
      have round : k < 176 := by omega
      simp only [← Nat.add_assoc]
      rw [EduPciState.roundKeys_file _ k round]
      simp only [EduPciState.memcpyCrypto, Vector.getElem_ofFn]
      rfl

/-- The handler copies four bytes, so that zeros go where the access does not reach. -/
theorem getElem_copied (offset : Nat) (width : AccessWidth) (val : BitVec 64) (i : Nat)
    (inside : i < 16 + 16 + 176) (beside : ¬ (offset ≤ i ∧ i < offset + width.bytes)) :
    (s.memcpyCrypto offset (littleEndian 4 (width.cut val))).cryptoFile[i] =
      if offset + width.bytes ≤ i ∧ i < offset + 4 then 0 else s.cryptoFile[i] := by
  rw [show (s.memcpyCrypto offset (littleEndian 4 (width.cut val))).cryptoFile[i] =
    (memcpy s.cryptoFile offset (littleEndian 4 (width.cut val)))[i] by
      rw [cryptoFile_memcpyCrypto]]
  rw [getElem_memcpy]
  by_cases reached : offset ≤ i
  · rw [if_pos reached, littleEndian_cut_beyond _ _ _ _ (by omega)]
    have same : i - offset < 4 ↔ offset + width.bytes ≤ i ∧ i < offset + 4 := by omega
    simp only [same]
  · rw [if_neg reached, if_neg (by omega)]

end File

section Windows

variable (dma : Dma DmaDescriptor) (s : EduPciState) (g : Guest DmaDescriptor) {addr : BitVec 64}
  (val : BitVec 64) (width : AccessWidth)

/-- Where a copy spills on zeros it changes what the access addresses only. -/
theorem getElem_spilled (zeros : SpillsOnZeros s addr width) (i : Nat)
    (inside : i < 16 + 16 + 176)
    (beside : ¬ ((addr - regCryptoKey).toNat ≤ i ∧ i < (addr - regCryptoKey).toNat + width.bytes)) :
    (s.memcpyCrypto (addr - regCryptoKey).toNat (littleEndian 4 (width.cut val))).cryptoFile[i] =
      s.cryptoFile[i] := by
  rw [getElem_copied s _ width val i inside beside]
  split
  next spilled => exact (zeros i inside spilled.1 spilled.2).symm
  next => rfl

section Spilled

variable (zeros : SpillsOnZeros s addr width)
include zeros

theorem getElem_cryptoKey_spilled (i : Nat) (inside : i < 16)
    (beside : ¬ ((addr - regCryptoKey).toNat ≤ i ∧ i < (addr - regCryptoKey).toNat + width.bytes)) :
    (s.memcpyCrypto (addr - regCryptoKey).toNat (littleEndian 4 (width.cut val))).cryptoKey[i] =
      s.cryptoKey[i] := by
  rw [← EduPciState.cryptoKey_file, ← s.cryptoKey_file]
  exact getElem_spilled s val width zeros i (by omega) beside

theorem getElem_cryptoIv_spilled (i : Nat) (inside : i < 16)
    (beside : ¬ ((addr - regCryptoKey).toNat ≤ 16 + i ∧
      16 + i < (addr - regCryptoKey).toNat + width.bytes)) :
    (s.memcpyCrypto (addr - regCryptoKey).toNat (littleEndian 4 (width.cut val))).cryptoIv[i] =
      s.cryptoIv[i] := by
  rw [← EduPciState.cryptoIv_file, ← s.cryptoIv_file]
  exact getElem_spilled s val width zeros (16 + i) (by omega) beside

theorem roundKeys_spilled (before : (addr - regCryptoKey).toNat + width.bytes ≤ 32) :
    (s.memcpyCrypto (addr - regCryptoKey).toNat (littleEndian 4 (width.cut val))).roundKeys =
      s.roundKeys := by
  apply Vector.ext
  intro i round
  rw [← EduPciState.roundKeys_file, ← s.roundKeys_file]
  exact getElem_spilled s val width zeros (32 + i) (by omega) (by omega)

end Spilled

/-- A copy puts a zero after the addressed bytes, so that it has to find one there. -/
theorem getElem_spill (i : Nat) (inside : i < 16 + 16 + 176)
    (start : (addr - regCryptoKey).toNat + width.bytes ≤ i)
    (stop : i < (addr - regCryptoKey).toNat + 4) :
    (s.memcpyCrypto (addr - regCryptoKey).toNat (littleEndian 4 (width.cut val))).cryptoFile[i] =
      0 := by
  rw [getElem_copied s _ width val i inside (by omega), if_pos ⟨start, stop⟩]

/-- A write to the key is confined exactly when it spills on zeros. -/
theorem keyWrite_confined_iff (aligned : addr.toNat % width.bytes = 0)
    (inside : regCryptoKey ≤ addr ∧ addr < regCryptoKey + 16) :
    KeyConfined s (eduCryptoWrite dma s g addr (width.cut val) 4).1 addr width ↔
      SpillsOnZeros s addr width := by
  have fits := aligned_inside aligned (by decide) (by decide) inside.1 inside.2
  have narrow := width.bytes_le
  let copied := s.memcpyCrypto (addr - regCryptoKey).toNat (littleEndian 4 (width.cut val))
  have written : (eduCryptoWrite dma s g addr (width.cut val) 4).1 =
      if (addr - regCryptoKey).toNat + 4 ≥ 16 then
        { copied with roundKeys := Aes.aesKeyExpand copied.cryptoKey } else copied := by
    rw [eduCryptoWrite_block dma s g _ 4 (above_command inside.1), if_pos inside]
    dsimp only
    split <;> rfl
  have key : (eduCryptoWrite dma s g addr (width.cut val) 4).1.cryptoKey = copied.cryptoKey := by
    rw [written]
    split <;> rfl
  have iv : (eduCryptoWrite dma s g addr (width.cut val) 4).1.cryptoIv = copied.cryptoIv := by
    rw [written]
    split <;> rfl
  constructor
  · intro confined i within start stop
    rw [← getElem_spill s val width i within start stop]
    rcases Nat.lt_or_ge i 16 with first | second
    · rw [s.cryptoKey_file i first, copied.cryptoKey_file i first, ← key]
      exact (confined.key i first (by unfold Addresses; omega)).symm
    · obtain ⟨j, rfl⟩ := Nat.exists_eq_add_of_le second
      rw [s.cryptoIv_file j (by omega), copied.cryptoIv_file j (by omega)]
      simp only [← iv, confined.iv]
  · intro zeros
    constructor
    · intro i first beside
      rw [key]
      exact getElem_cryptoKey_spilled s val width zeros i first beside
    · rw [iv]
      apply Vector.ext
      intro i first
      exact getElem_cryptoIv_spilled s val width zeros i first (by omega)
    · rw [written]
      split
      · exact .inr rfl
      · exact .inl (roundKeys_spilled s val width zeros (by omega))

/-- A write to the IV is confined exactly when it spills on zeros. -/
theorem ivWrite_confined_iff (aligned : addr.toNat % width.bytes = 0)
    (inside : regCryptoIv ≤ addr ∧ addr < regCryptoIv + 16) :
    IvConfined s (eduCryptoWrite dma s g addr (width.cut val) 4).1 addr width ↔
      SpillsOnZeros s addr width := by
  have fits := aligned_inside aligned (by decide) (by decide) inside.1 inside.2
  have narrow := width.bytes_le
  have offset : 16 + (addr - regCryptoIv).toNat = (addr - regCryptoKey).toNat := by
    obtain ⟨difference, above, below⟩ := block_offset (by decide) inside.1 inside.2
    bv_omega
  have written : (eduCryptoWrite dma s g addr (width.cut val) 4).1 =
      s.memcpyCrypto (addr - regCryptoKey).toNat (littleEndian 4 (width.cut val)) := by
    have above : regCryptoKey ≤ addr := BitVec.le_trans (by decide) inside.1
    have beyond : ¬ (addr ≥ regCryptoKey ∧ addr < regCryptoKey + 16) :=
      fun key => BitVec.not_lt.mpr inside.1 key.2
    rw [eduCryptoWrite_block dma s g _ 4 (above_command above), if_neg beyond, if_pos inside]
    dsimp only
    rw [offset]
  rw [written]
  let copied := s.memcpyCrypto (addr - regCryptoKey).toNat (littleEndian 4 (width.cut val))
  constructor
  · intro confined i within start stop
    rw [← getElem_spill s val width i within start stop]
    obtain ⟨j, rfl⟩ := Nat.exists_eq_add_of_le (show 16 ≤ i by omega)
    rcases Nat.lt_or_ge j 16 with first | second
    · rw [s.cryptoIv_file j first, copied.cryptoIv_file j first]
      exact (confined.iv j first (by unfold Addresses; omega)).symm
    · obtain ⟨k, rfl⟩ := Nat.exists_eq_add_of_le second
      have round : k < 176 := by omega
      simp only [← Nat.add_assoc]
      rw [s.roundKeys_file k round, copied.roundKeys_file k round]
      simp only [confined.roundKeys, copied]
  · intro zeros
    constructor
    · apply Vector.ext
      intro i first
      exact getElem_cryptoKey_spilled s val width zeros i first (by omega)
    · intro i first beside
      unfold Addresses at beside
      exact getElem_cryptoIv_spilled s val width zeros i first (by omega)
    · exact roundKeys_spilled s val width zeros (by omega)

end Windows

/-- An aligned write to the key or the IV stays in its own registers exactly when the bytes that the
handler copies beyond the width of the access are zero already, which is always so for a word. -/
theorem cryptoWrite_confined_iff (dma : Dma DmaDescriptor) (s : EduPciState)
    (g : Guest DmaDescriptor) (host : Memory → Memory) (addr val : BitVec 64) (width : AccessWidth)
    (aligned : addr.toNat % width.bytes = 0)
    (inside : regCryptoKey ≤ addr ∧ addr < regCryptoIv + 16) :
    let next := (cryptoGuestAccess dma (s, g) ⟨host, addr, width, .write val, aligned⟩).1.1
    ((addr < regCryptoIv → KeyConfined s next addr width) ∧
      (regCryptoIv ≤ addr → IvConfined s next addr width)) ↔
      SpillsOnZeros s addr width := by
  intro next
  by_cases key : addr < regCryptoIv
  · rw [← keyWrite_confined_iff dma s (g.rewrite host) val width aligned ⟨inside.1, key⟩]
    exact ⟨fun confined => confined.1 key,
      fun confined => ⟨fun _ => confined, fun iv => absurd key (BitVec.not_lt.mpr iv)⟩⟩
  · have iv := BitVec.not_lt.mp key
    rw [← ivWrite_confined_iff dma s (g.rewrite host) val width aligned ⟨iv, inside.2⟩]
    exact ⟨fun confined => confined.2 iv,
      fun confined => ⟨fun before => absurd before key, fun _ => confined⟩⟩

/-- A word goes into the middle of a key of ones. -/
theorem cryptoWrite_confined_iff_word :
    let s := { EduPciState.zeroed ⟨false⟩ with cryptoKey := Vector.replicate 16 1 }
    let dma : Dma DmaDescriptor := DmaPattern.reliable.dma fun _ _ => 0
    let next := (cryptoGuestAccess dma (s, ⟨fun _ => 0, []⟩)
      ⟨id, 0x24, .word, .write 0x11223344, rfl⟩).1.1
    KeyConfined s next 0x24 .word := by
  intro s dma next
  have confined := cryptoWrite_confined_iff dma s ⟨fun _ => 0, []⟩ id 0x24 0x11223344 .word rfl
    ⟨by decide, by decide⟩
  refine (confined.mpr ?_).1 (by decide)
  intro i within start stop
  have empty : (0x24#64 - regCryptoKey).toNat + AccessWidth.word.bytes =
      (0x24#64 - regCryptoKey).toNat + 4 := rfl
  omega

/-- A byte at the end of the key clears three bytes of the IV. -/
theorem cryptoWrite_spills :
    let s := { EduPciState.zeroed ⟨false⟩ with cryptoIv := Vector.replicate 16 1 }
    let dma : Dma DmaDescriptor := DmaPattern.reliable.dma fun _ _ => 0
    let next := (cryptoGuestAccess dma (s, ⟨fun _ => 0, []⟩) ⟨id, 0x2F, .byte, .write 0x55, rfl⟩).1.1
    ¬ KeyConfined s next 0x2F .byte ∧ next.cryptoIv[0] = 0 ∧ s.cryptoIv[0] = 1 := by
  intro s dma next
  have cleared : next.cryptoIv[0] = 0 := by decide +kernel
  have old : s.cryptoIv[0] = 1 := rfl
  refine ⟨fun confined => ?_, cleared, old⟩
  have kept : next.cryptoIv[0] = s.cryptoIv[0] := by rw [confined.iv]
  rw [cleared, old] at kept
  exact absurd kept (by decide)

end EduDevices
