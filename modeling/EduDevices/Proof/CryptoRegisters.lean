import EduDevices.Construction.Crypto
import EduDevices.Proof.RegisterHalves

namespace EduDevices

/-- A write is aligned when its offset is a multiple of four. -/
def HostWrite.Aligned (write : HostWrite) : Prop := write.addr.toNat % 4 = 0

instance (write : HostWrite) : Decidable write.Aligned := inferInstanceAs (Decidable (_ = _))

/-- The offset of a word of a register block. -/
def wordOffset (base : BitVec 64) (word : Nat) : BitVec 64 := base + BitVec.ofNat 64 (4 * word)

def byteOf (val : BitVec 32) (index : Nat) : Byte := (val >>> (8 * index)).setWidth 8

/-- A word of a register block is replaced. -/
def putWord (block : Aes.AesBlock) (word : Nat) (val : BitVec 32) : Aes.AesBlock :=
  Vector.ofFn fun i => if i.val / 4 = word then byteOf val (i.val % 4) else block.get i

theorem get_putWord (block : Aes.AesBlock) (word : Nat) (val : BitVec 32) (i : Fin 16) :
    (putWord block word val).get i =
      if i.val / 4 = word then byteOf val (i.val % 4) else block.get i :=
  Vector.getElem_ofFn ..

/-- The effect of a write on a block of four word registers. -/
def blockWrite (base : BitVec 64) (write : HostWrite) (block : Aes.AesBlock) : Aes.AesBlock :=
  Vector.ofFn fun i =>
    if write.addr = wordOffset base (i.val / 4) then byteOf write.val (i.val % 4) else block.get i

/-- The effect of a write on a register that is written in two halves. -/
def halvesWrite (low high : BitVec 64) (write : HostWrite) (register : BitVec 64) : BitVec 64 :=
  if write.addr = low then withLow register (write.val.setWidth 64)
  else if write.addr = high then withHigh register (write.val.setWidth 64)
  else register

/-- The effect of a write on the registers of the crypto engine. -/
def registered (s : EduPciState) (write : HostWrite) : EduPciState :=
  { s with
    cryptoSrc := halvesWrite regCryptoSrcLo regCryptoSrcHi write s.cryptoSrc
    cryptoDst := halvesWrite regCryptoDstLo regCryptoDstHi write s.cryptoDst
    cryptoLen := if write.addr = regCryptoLen then write.val else s.cryptoLen
    cryptoKey := blockWrite regCryptoKey write s.cryptoKey
    cryptoIv := blockWrite regCryptoIv write s.cryptoIv
    roundKeys :=
      if write.addr = wordOffset regCryptoKey 3 then
        Aes.aesKeyExpand (blockWrite regCryptoKey write s.cryptoKey)
      else s.roundKeys }

theorem wordOffset_inj (base : BitVec 64) {first second : Nat} (one : first < 4)
    (other : second < 4) : wordOffset base first = wordOffset base second ↔ first = second := by
  unfold wordOffset
  constructor
  · intro same
    bv_omega
  · rintro rfl
    rfl

theorem blockWrite_word (base : BitVec 64) (host : Memory → Memory) (val : BitVec 32)
    (block : Aes.AesBlock) {word : Nat} (inside : word < 4) :
    blockWrite base ⟨host, wordOffset base word, val⟩ block = putWord block word val := by
  apply Vector.ext
  intro i within
  have same := wordOffset_inj base inside (show i / 4 < 4 by omega)
  simp only [blockWrite, putWord, Vector.getElem_ofFn, same, eq_comm]

theorem blockWrite_other {base : BitVec 64} {write : HostWrite} (block : Aes.AesBlock)
    (other : ∀ word < 4, write.addr ≠ wordOffset base word) :
    blockWrite base write block = block := by
  apply Vector.ext
  intro i within
  simp only [blockWrite, Vector.getElem_ofFn, if_neg (other (i / 4) (by omega))]
  rfl

/-- Copying a word to a word offset replaces that word. -/
theorem getElem_memcpy_word {size : Nat} (array : Vector Byte size) (val : BitVec 32)
    (word i : Nat) (inside : i < size) :
    (memcpy array (4 * word) (littleEndian 4 (val.setWidth 64)))[i] =
      if i / 4 = word then byteOf val (i % 4) else array[i] := by
  rw [getElem_memcpy]
  by_cases same : i / 4 = word
  · have start : 4 * word ≤ i := by omega
    have index : i - 4 * word = i % 4 := by omega
    have low : i % 4 < 4 := Nat.mod_lt _ (by decide)
    rw [if_pos start, if_pos same, index, List.getD_eq_getElem _ _ (by simpa using low)]
    simp only [littleEndian, List.getElem_map, List.getElem_range, byteOf]
    apply BitVec.eq_of_getLsbD_eq
    intro position within
    simp [show 8 * (i % 4) + position < 64 by omega]
  · rw [if_neg same]
    split
    next start =>
      rw [List.getD_eq_default]
      simp only [length_littleEndian]
      omega
    next => rfl

/-- The three arrays stand one after the other. -/
theorem getElem_joined (key iv : Aes.AesBlock) (rk : Aes.RoundKeys) (i : Nat)
    (inside : i < 16 + 16 + 176) :
    (key ++ iv ++ rk)[i] =
      if first : i < 16 then key[i]
      else if second : i < 32 then iv.get ⟨i - 16, by omega⟩
      else rk.get ⟨i - 32, by omega⟩ := by
  rw [Vector.getElem_append]
  by_cases first : i < 16
  · rw [dif_pos (show i < 16 + 16 by omega), Vector.getElem_append, dif_pos first, dif_pos first]
  · rw [dif_neg first]
    by_cases second : i < 32
    · rw [dif_pos (show i < 16 + 16 by omega), Vector.getElem_append, dif_neg first, dif_pos second]
      rfl
    · rw [dif_neg (show ¬ i < 16 + 16 by omega), dif_neg second]
      rfl

/-- The bytes after a copy are the bytes of the three arrays after it. -/
theorem memcpyCrypto_eq {s : EduPciState} {offset : Nat} {data : List Byte}
    {key iv : Aes.AesBlock} {rk : Aes.RoundKeys}
    (copied : memcpy (s.cryptoKey ++ s.cryptoIv ++ s.roundKeys) offset data = key ++ iv ++ rk) :
    s.memcpyCrypto offset data =
      { s with cryptoKey := key, cryptoIv := iv, roundKeys := rk } := by
  have first : (Vector.ofFn fun i : Fin 16 => (key ++ iv ++ rk)[i.val]) = key := by
    apply Vector.ext
    intro i within
    rw [Vector.getElem_ofFn, getElem_joined, dif_pos within]
  have second : (Vector.ofFn fun i : Fin 16 => (key ++ iv ++ rk)[16 + i.val]) = iv := by
    apply Vector.ext
    intro i within
    rw [Vector.getElem_ofFn, getElem_joined, dif_neg (by omega), dif_pos (by omega)]
    simp only [Nat.add_sub_cancel_left]
    rfl
  have third : (Vector.ofFn fun i : Fin 176 => (key ++ iv ++ rk)[32 + i.val]) = rk := by
    apply Vector.ext
    intro i within
    rw [Vector.getElem_ofFn, getElem_joined, dif_neg (by omega), dif_neg (by omega)]
    simp only [Nat.add_sub_cancel_left]
    rfl
  unfold EduPciState.memcpyCrypto
  dsimp only
  rw [copied, first, second, third]

/-- A copy of a word to a word of the key stays in the key. -/
theorem memcpyCrypto_key (s : EduPciState) (val : BitVec 32) {word : Nat} (inside : word < 4) :
    s.memcpyCrypto (4 * word) (littleEndian 4 (val.setWidth 64)) =
      { s with cryptoKey := putWord s.cryptoKey word val } := by
  apply memcpyCrypto_eq
  apply Vector.ext
  intro i within
  rw [getElem_memcpy_word, getElem_joined, getElem_joined]
  by_cases key : i < 16
  · rw [dif_pos key, dif_pos key, putWord, Vector.getElem_ofFn]
    rfl
  · rw [if_neg (by omega), dif_neg key, dif_neg key]

/-- A copy of a word to a word of the IV stays in the IV. -/
theorem memcpyCrypto_iv (s : EduPciState) (val : BitVec 32) {word : Nat} (inside : word < 4) :
    s.memcpyCrypto (16 + 4 * word) (littleEndian 4 (val.setWidth 64)) =
      { s with cryptoIv := putWord s.cryptoIv word val } := by
  apply memcpyCrypto_eq
  apply Vector.ext
  intro i within
  rw [show 16 + 4 * word = 4 * (4 + word) by omega, getElem_memcpy_word, getElem_joined,
    getElem_joined]
  by_cases key : i < 16
  · rw [if_neg (by omega), dif_pos key, dif_pos key]
  · rw [dif_neg key, dif_neg key]
    by_cases iv : i < 32
    · have quotient : i / 4 = 4 + word ↔ (i - 16) / 4 = word := by omega
      have remainder : i % 4 = (i - 16) % 4 := by omega
      rw [dif_pos iv, dif_pos iv, get_putWord]
      simp only [quotient, remainder]
    · rw [if_neg (by omega), dif_neg iv, dif_neg iv]

/-- An offset in a block of sixteen bytes, as a number. -/
theorem block_offset {addr base : BitVec 64} (small : base.toNat < 2 ^ 63) (start : base ≤ addr)
    (stop : addr < base + 16) :
    (addr - base).toNat = addr.toNat - base.toNat ∧ base.toNat ≤ addr.toNat ∧
      addr.toNat < base.toNat + 16 := by
  have below := BitVec.lt_def.mp stop
  rw [BitVec.toNat_add, show (16 : BitVec 64).toNat = 16 from rfl,
    Nat.mod_eq_of_lt (by omega)] at below
  exact ⟨BitVec.toNat_sub_of_le start, start, below⟩

/-- An aligned offset of a block of four words is the offset of one of its words. -/
theorem aligned_word {addr base : BitVec 64} (aligned : addr.toNat % 4 = 0)
    (whole : base.toNat % 4 = 0) (small : base.toNat < 2 ^ 63) (start : base ≤ addr)
    (stop : addr < base + 16) :
    ∃ word < 4, addr = wordOffset base word ∧ (addr - base).toNat = 4 * word := by
  obtain ⟨difference, above, below⟩ := block_offset small start stop
  have multiple : 4 * ((addr.toNat - base.toNat) / 4) = addr.toNat - base.toNat := by omega
  refine ⟨(addr.toNat - base.toNat) / 4, by omega, ?_, by omega⟩
  rw [wordOffset, multiple, ← difference, BitVec.ofNat_toNat, BitVec.setWidth_eq]
  exact (by bv_omega)

theorem released_idle {s : EduPciState} (idle : s.cryptoBusy = 0) :
    { s with cryptoBusy := 0 } = s := by
  cases s
  simp_all

/-- An operation leaves the registers of an idle engine as it found them. -/
theorem eduCryptoStart_device (dma : Dma DmaDescriptor) {s : EduPciState}
    (g : Guest DmaDescriptor) (val : BitVec 64) (idle : s.cryptoBusy = 0) :
    (eduCryptoStart dma s g val).1 = s := by
  unfold eduCryptoStart
  dsimp only
  split
  · rfl
  · split <;> exact released_idle idle

/-- The words of the two blocks have different offsets, and no block contains another register. -/
theorem wordOffset_ne {base other : BitVec 64} {word : Nat} (inside : word < 4)
    (apart : other < base ∨ base + 16 ≤ other) (small : base.toNat < 2 ^ 63) :
    other ≠ wordOffset base word := by
  unfold wordOffset
  bv_omega

/-- A write below the blocks changes neither of them. -/
theorem registered_low (s : EduPciState) (host : Memory → Memory) {addr : BitVec 64}
    (val : BitVec 32) (below : addr < regCryptoKey) :
    registered s ⟨host, addr, val⟩ =
      { s with
        cryptoSrc := halvesWrite regCryptoSrcLo regCryptoSrcHi ⟨host, addr, val⟩ s.cryptoSrc
        cryptoDst := halvesWrite regCryptoDstLo regCryptoDstHi ⟨host, addr, val⟩ s.cryptoDst
        cryptoLen := if addr = regCryptoLen then val else s.cryptoLen } := by
  have key (word : Nat) (inside : word < 4) : addr ≠ wordOffset regCryptoKey word :=
    wordOffset_ne inside (.inl below) (by decide)
  have iv (word : Nat) (inside : word < 4) : addr ≠ wordOffset regCryptoIv word :=
    wordOffset_ne inside (.inl (by bv_omega)) (by decide)
  rw [registered, blockWrite_other _ key, blockWrite_other _ iv, if_neg (key 3 (by decide))]

theorem registered_high (s : EduPciState) {write : HostWrite} (above : regCryptoKey ≤ write.addr) :
    registered s write =
      { s with
        cryptoKey := blockWrite regCryptoKey write s.cryptoKey
        cryptoIv := blockWrite regCryptoIv write s.cryptoIv
        roundKeys :=
          if write.addr = wordOffset regCryptoKey 3 then
            Aes.aesKeyExpand (blockWrite regCryptoKey write s.cryptoKey)
          else s.roundKeys } := by
  have other (register : BitVec 64) (below : register < regCryptoKey) : write.addr ≠ register := by
    rintro rfl
    bv_omega
  unfold registered halvesWrite
  simp only [if_neg (other _ (show regCryptoSrcLo < regCryptoKey by decide)),
    if_neg (other _ (show regCryptoSrcHi < regCryptoKey by decide)),
    if_neg (other _ (show regCryptoDstLo < regCryptoKey by decide)),
    if_neg (other _ (show regCryptoDstHi < regCryptoKey by decide)),
    if_neg (other _ (show regCryptoLen < regCryptoKey by decide))]

/-- A command that finds the engine idle, or busy, leaves the registers as they were. -/
theorem eduCryptoCommand_device (dma : Dma DmaDescriptor) (s : EduPciState)
    (g : Guest DmaDescriptor) (val : BitVec 64) :
    (if val &&& cryptoCmdStart ≠ 0 ∧ s.cryptoBusy = 0 then eduCryptoStart dma s g val
      else (s, g)).1 = s := by
  split
  next starts => exact eduCryptoStart_device dma g val starts.2
  next => rfl

/-- Above the command register a write reaches the key or the IV or nothing. -/
theorem eduCryptoWrite_block (dma : Dma DmaDescriptor) (s : EduPciState) (g : Guest DmaDescriptor)
    {addr : BitVec 64} (val : BitVec 64) (size : Nat)
    (above : ∀ register ≤ regCryptoCmd, addr ≠ register) :
    eduCryptoWrite dma s g addr val size =
      if addr ≥ regCryptoKey ∧ addr < regCryptoKey + 16 then
        let idx := (addr - regCryptoKey).toNat
        let s := s.memcpyCrypto idx (littleEndian size val)
        if idx + size ≥ 16 then ({ s with roundKeys := Aes.aesKeyExpand s.cryptoKey }, g)
        else (s, g)
      else if addr ≥ regCryptoIv ∧ addr < regCryptoIv + 16 then
        let idx := (addr - regCryptoIv).toNat
        (s.memcpyCrypto (16 + idx) (littleEndian size val), g)
      else (s, g) := by
  unfold eduCryptoWrite
  split
  case h_7 => rfl
  all_goals exact absurd rfl (above _ (by decide))

/-- Above the command register no register has an offset of its own. -/
theorem above_command {addr : BitVec 64} (above : regCryptoKey ≤ addr) (register : BitVec 64)
    (low : register ≤ regCryptoCmd) : addr ≠ register := by
  intro same
  subst same
  bv_omega

section Block

variable (dma : Dma DmaDescriptor) (s : EduPciState) (g : Guest DmaDescriptor)
  (host : Memory → Memory) (val : BitVec 32) {addr : BitVec 64}

/-- A word of the key goes to its place, and the last one expands the key. -/
theorem eduCryptoWrite_key (aligned : addr.toNat % 4 = 0)
    (inside : regCryptoKey ≤ addr ∧ addr < regCryptoKey + 16) :
    (eduCryptoWrite dma s g addr (val.setWidth 64) 4).1 = registered s ⟨host, addr, val⟩ := by
  obtain ⟨word, within, rfl, idx⟩ :=
    aligned_word aligned (by decide) (by decide) inside.1 inside.2
  have last := wordOffset_inj regCryptoKey within (show 3 < 4 by decide)
  have iv (other : Nat) (ivWord : other < 4) :
      wordOffset regCryptoKey word ≠ wordOffset regCryptoIv other :=
    wordOffset_ne ivWord (.inl (by bv_omega)) (by decide)
  rw [eduCryptoWrite_block dma s g _ 4 (above_command inside.1), if_pos inside]
  dsimp only
  rw [idx, memcpyCrypto_key s val within, registered_high s inside.1,
    blockWrite_word _ _ _ _ within, blockWrite_other _ iv]
  by_cases expands : word = 3
  · subst expands
    rfl
  · rw [if_neg (by omega), if_neg (by rw [last]; exact expands)]

theorem eduCryptoWrite_iv (aligned : addr.toNat % 4 = 0)
    (inside : regCryptoIv ≤ addr ∧ addr < regCryptoIv + 16) :
    (eduCryptoWrite dma s g addr (val.setWidth 64) 4).1 = registered s ⟨host, addr, val⟩ := by
  have above : regCryptoKey ≤ addr := BitVec.le_trans (by decide) inside.1
  have beyond : ¬ (addr ≥ regCryptoKey ∧ addr < regCryptoKey + 16) :=
    fun key => BitVec.not_lt.mpr inside.1 key.2
  obtain ⟨word, within, rfl, idx⟩ :=
    aligned_word aligned (by decide) (by decide) inside.1 inside.2
  have key (other : Nat) (keyWord : other < 4) :
      wordOffset regCryptoIv word ≠ wordOffset regCryptoKey other :=
    wordOffset_ne keyWord (.inr (by bv_omega)) (by decide)
  rw [eduCryptoWrite_block dma s g _ 4 (above_command above), if_neg beyond, if_pos inside]
  dsimp only
  rw [idx, memcpyCrypto_iv s val within, registered_high s above, blockWrite_word _ _ _ _ within,
    blockWrite_other _ key, if_neg (key 3 (by decide))]

/-- A write to neither block has no effect above the command register. -/
theorem eduCryptoWrite_beyond (above : regCryptoKey ≤ addr)
    (key : ¬ (regCryptoKey ≤ addr ∧ addr < regCryptoKey + 16))
    (iv : ¬ (regCryptoIv ≤ addr ∧ addr < regCryptoIv + 16)) :
    (eduCryptoWrite dma s g addr (val.setWidth 64) 4).1 = registered s ⟨host, addr, val⟩ := by
  have noKey (word : Nat) (within : word < 4) : addr ≠ wordOffset regCryptoKey word :=
    wordOffset_ne within (.inr (by bv_omega)) (by decide)
  have noIv (word : Nat) (within : word < 4) : addr ≠ wordOffset regCryptoIv word :=
    wordOffset_ne within (by bv_omega) (by decide)
  rw [eduCryptoWrite_block dma s g _ 4 (above_command above), if_neg key, if_neg iv,
    registered_high s above, blockWrite_other _ noKey, blockWrite_other _ noIv,
    if_neg (noKey 3 (by decide))]

theorem eduCryptoWrite_low (below : addr < regCryptoKey) :
    (eduCryptoWrite dma s g addr (val.setWidth 64) 4).1 = registered s ⟨host, addr, val⟩ := by
  unfold eduCryptoWrite
  split
  case h_6 =>
    rw [eduCryptoCommand_device, registered_low s host val (by decide)]
    rfl
  case h_7 sourceLow sourceHigh destLow destHigh length command =>
    rw [if_neg (by bv_omega), if_neg (by bv_omega), registered_low s host val below]
    unfold halvesWrite
    dsimp only
    rw [if_neg (show addr ≠ regCryptoSrcLo from sourceLow),
      if_neg (show addr ≠ regCryptoSrcHi from sourceHigh),
      if_neg (show addr ≠ regCryptoDstLo from destLow),
      if_neg (show addr ≠ regCryptoDstHi from destHigh),
      if_neg (show addr ≠ regCryptoLen from length)]
  all_goals
    rw [registered_low s host val (by decide)]
    simp [halvesWrite, regCryptoSrcLo, regCryptoSrcHi, regCryptoDstLo, regCryptoDstHi, regCryptoLen]

end Block

/-- An aligned write has the effect of its register, a command none at all. -/
theorem cryptoAccess_device (dma : Dma DmaDescriptor) (s : EduPciState) (g : Guest DmaDescriptor)
    {write : HostWrite} (aligned : write.Aligned) :
    (cryptoAccess dma (s, g) write).1 = registered s write := by
  obtain ⟨host, addr, val⟩ := write
  unfold cryptoAccess
  by_cases above : regCryptoKey ≤ addr
  · by_cases key : regCryptoKey ≤ addr ∧ addr < regCryptoKey + 16
    · exact eduCryptoWrite_key dma s _ host val aligned key
    · by_cases iv : regCryptoIv ≤ addr ∧ addr < regCryptoIv + 16
      · exact eduCryptoWrite_iv dma s _ host val aligned iv
      · exact eduCryptoWrite_beyond dma s _ host val above key iv
  · exact eduCryptoWrite_low dma s _ host val (BitVec.not_le.mp above)

/-- Every write but a command leaves the guest to the host. -/
theorem cryptoAccess_guest (dma : Dma DmaDescriptor) (s : EduPciState) (g : Guest DmaDescriptor)
    {write : HostWrite} (silent : write.addr ≠ regCryptoCmd) :
    (cryptoAccess dma (s, g) write).2 = g.rewrite write.host := by
  unfold cryptoAccess eduCryptoWrite
  dsimp only
  split
  case h_6 commanded => exact absurd commanded silent
  case h_7 => split_ifs <;> rfl
  all_goals rfl

theorem memcpyCrypto_busy (s : EduPciState) (offset : Nat) (data : List Byte) :
    (s.memcpyCrypto offset data).cryptoBusy = s.cryptoBusy := by
  rw [EduPciState.memcpyCrypto]

/-- Between writes the engine is idle, whatever the host writes. -/
theorem cryptoAccess_idle (dma : Dma DmaDescriptor) {s : EduPciState} (g : Guest DmaDescriptor)
    (write : HostWrite) (idle : s.cryptoBusy = 0) :
    (cryptoAccess dma (s, g) write).1.cryptoBusy = 0 := by
  unfold cryptoAccess eduCryptoWrite
  dsimp only
  split
  case h_6 =>
    rw [eduCryptoCommand_device]
    exact idle
  case h_7 => split_ifs <;> simp only [memcpyCrypto_busy, idle]
  all_goals exact idle

theorem cryptoRun_idle (dma : Dma DmaDescriptor) (writes : List HostWrite) {s : EduPciState}
    (g : Guest DmaDescriptor) (idle : s.cryptoBusy = 0) :
    (writes.foldl (cryptoAccess dma) (s, g)).1.cryptoBusy = 0 := by
  induction writes generalizing s g with
  | nil => exact idle
  | cons write rest ih => exact ih _ (cryptoAccess_idle dma g write idle)

end EduDevices
