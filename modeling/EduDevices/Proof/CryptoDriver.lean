import EduDevices.Library.Refinement
import EduDevices.Proof.CryptoService
import EduDevices.Proof.CryptoChunks

namespace EduDevices

open Refinement

namespace CryptoDevice

/-- The words of a block as the host writes them. -/
def blockProgram (base : BitVec 64) (block : Aes.AesBlock) : List HostWrite :=
  (List.range 4).map fun word => ⟨id, wordOffset base word, blockWord block word⟩

section Registers

variable (dma : Dma DmaDescriptor) (dev : CryptoDevice)

/-- Programming reaches the registers only. -/
theorem writeReg_silent {off : BitVec 64} (aligned : off.toNat % 4 = 0)
    (silent : off ≠ regCryptoCmd) (val : BitVec 32) :
    writeReg dma dev off val = { dev with device := registered dev.device ⟨id, off, val⟩ } := by
  have write : cryptoAccess dma (dev.device, dev.guest) ⟨id, off, val⟩ =
      (registered dev.device ⟨id, off, val⟩, dev.guest) :=
    Prod.ext (cryptoAccess_device dma dev.device dev.guest aligned)
      (cryptoAccess_guest dma dev.device dev.guest silent)
  rw [writeReg, write]

theorem writeReg_foldl {writes : List HostWrite}
    (programs : ∀ write ∈ writes, write.host = id ∧ write.Aligned ∧ write.addr ≠ regCryptoCmd) :
    writes.foldl (fun dev write => writeReg dma dev write.addr write.val) dev =
      { dev with device := writes.foldl registered dev.device } := by
  induction writes generalizing dev with
  | nil => rfl
  | cons write rest ih =>
      obtain ⟨quiet, aligned, silent⟩ := programs write List.mem_cons_self
      obtain ⟨host, addr, val⟩ := write
      dsimp only at quiet silent
      subst quiet
      rw [List.foldl_cons, writeReg_silent dma dev aligned silent val, List.foldl_cons]
      exact ih _ fun later member => programs later (List.mem_cons_of_mem _ member)

theorem writeBlock_eq {base : BitVec 64} (block : Aes.AesBlock)
    (programs : ∀ word < 4, (wordOffset base word).toNat % 4 = 0 ∧
      wordOffset base word ≠ regCryptoCmd) :
    writeBlock dma dev base block =
      { dev with device := (blockProgram base block).foldl registered dev.device } := by
  have silent : ∀ write ∈ blockProgram base block,
      write.host = id ∧ write.Aligned ∧ write.addr ≠ regCryptoCmd := by
    intro write member
    obtain ⟨word, inside, rfl⟩ := List.mem_map.mp member
    exact ⟨rfl, programs word (List.mem_range.mp inside)⟩
  exact writeReg_foldl dma dev silent

end Registers

/-- A word of the key goes to its place, and the last one expands the key. -/
theorem registered_keyWord (s : EduPciState) {word : Nat} (inside : word < 4) (val : BitVec 32) :
    registered s ⟨id, wordOffset regCryptoKey word, val⟩ =
      { s with
        cryptoKey := putWord s.cryptoKey word val
        roundKeys := if word = 3 then Aes.aesKeyExpand (putWord s.cryptoKey word val)
          else s.roundKeys } := by
  have above : regCryptoKey ≤ wordOffset regCryptoKey word := by interval_cases word <;> decide
  have apart : ∀ other < 4, wordOffset regCryptoKey word ≠ wordOffset regCryptoIv other := by
    interval_cases word <;> decide
  rw [registered_high s above, blockWrite_word _ _ _ _ inside, blockWrite_other s.cryptoIv apart]
  dsimp only
  simp only [wordOffset_inj regCryptoKey inside (show 3 < 4 by decide)]

theorem registered_ivWord (s : EduPciState) {word : Nat} (inside : word < 4) (val : BitVec 32) :
    registered s ⟨id, wordOffset regCryptoIv word, val⟩ =
      { s with cryptoIv := putWord s.cryptoIv word val } := by
  have above : regCryptoKey ≤ wordOffset regCryptoIv word := by interval_cases word <;> decide
  have apart : ∀ other < 4, wordOffset regCryptoIv word ≠ wordOffset regCryptoKey other := by
    interval_cases word <;> decide
  rw [registered_high s above, blockWrite_word _ _ _ _ inside, blockWrite_other s.cryptoKey apart]
  dsimp only
  rw [if_neg (apart 3 (by decide))]

/-- Putting all four words of a block gives the block. -/
theorem putWords (old block : Aes.AesBlock) :
    putWord (putWord (putWord (putWord old 0 (blockWord block 0)) 1 (blockWord block 1)) 2
      (blockWord block 2)) 3 (blockWord block 3) = block := by
  apply Vector.ext
  intro i inside
  have byte := byteOf_blockWord block i inside
  have quarter : i / 4 < 4 := by omega
  have put (before : Aes.AesBlock) (word : Nat) (val : BitVec 32) :
      (putWord before word val)[i] = if i / 4 = word then byteOf val (i % 4) else before[i] :=
    get_putWord before word val ⟨i, inside⟩
  rw [put, put, put, put]
  generalize i / 4 = word at byte quarter
  interval_cases word <;> exact byte

section Blocks

variable (dma : Dma DmaDescriptor) (dev : CryptoDevice)

/-- Setting a key expands the whole of it. -/
theorem setKey_eq (key : Aes.AesBlock) : setKey dma dev key = { dev with
    device := { dev.device with cryptoKey := key, roundKeys := Aes.aesKeyExpand key } } := by
  have written : (blockProgram regCryptoKey key).foldl registered dev.device =
      { dev.device with cryptoKey := key, roundKeys := Aes.aesKeyExpand key } := by
    show [(0 : Nat), 1, 2, 3].foldl (fun s word =>
      registered s ⟨id, wordOffset regCryptoKey word, blockWord key word⟩) dev.device = _
    simp only [List.foldl_cons, List.foldl_nil]
    rw [registered_keyWord _ (by decide), registered_keyWord _ (by decide),
      registered_keyWord _ (by decide), registered_keyWord _ (by decide)]
    dsimp only
    rw [putWords]
    rfl
  rw [setKey, writeBlock_eq dma dev key (by decide), written]

theorem setIv_eq (iv : Aes.AesBlock) :
    setIv dma dev iv = { dev with device := { dev.device with cryptoIv := iv } } := by
  have written : (blockProgram regCryptoIv iv).foldl registered dev.device =
      { dev.device with cryptoIv := iv } := by
    show [(0 : Nat), 1, 2, 3].foldl (fun s word =>
      registered s ⟨id, wordOffset regCryptoIv word, blockWord iv word⟩) dev.device = _
    simp only [List.foldl_cons, List.foldl_nil]
    rw [registered_ivWord _ (by decide), registered_ivWord _ (by decide),
      registered_ivWord _ (by decide), registered_ivWord _ (by decide)]
    dsimp only
    rw [putWords]
  rw [setIv, writeBlock_eq dma dev iv (by decide), written]

end Blocks

/-- The writes that set up the two buffers for a text. -/
def bufferProgram (len : BitVec 32) : List HostWrite :=
  (bufferWords srcIova dstIova len).map fun entry => ⟨id, entry.1, entry.2⟩

theorem bufferProgram_silent (len : BitVec 32) : ∀ write ∈ bufferProgram len,
    write.host = id ∧ write.Aligned ∧ write.addr ≠ regCryptoCmd := by
  simp only [bufferProgram, bufferWords, List.map_cons, List.map_nil, List.forall_mem_cons,
    List.not_mem_nil, false_implies, implies_true, and_true, true_and, HostWrite.Aligned]
  and_intros <;> decide

theorem foldl_bufferProgram (s : EduPciState) (len : BitVec 32) :
    (bufferProgram len).foldl registered s =
      withCrypto s srcIova dstIova len s.cryptoKey s.cryptoIv s.roundKeys := by
  simp only [bufferProgram, bufferWords, List.map_cons, List.map_nil, List.foldl_cons,
    List.foldl_nil]
  rw [registered_low _ _ _ (by decide), registered_low _ _ _ (by decide),
    registered_low _ _ _ (by decide), registered_low _ _ _ (by decide),
    registered_low _ _ _ (by decide)]
  have src := withHigh_withLow s.cryptoSrc srcIova
  have dst := withHigh_withLow s.cryptoDst dstIova
  conv_rhs => rw [← src, ← dst]
  rfl

/-- The device when the text is in place and the buffers are set up for it. -/
def programmed (dev : CryptoDevice) (text : List Byte) : CryptoDevice :=
  { (dev.memcpy srcIova text).memcpy dstIova (List.replicate pageSize 0) with
    device := withCrypto dev.device srcIova dstIova (BitVec.ofNat 32 text.length)
      dev.device.cryptoKey dev.device.cryptoIv dev.device.roundKeys }

/-- The host waits for the end of its command and takes the result. -/
def collected (dev : CryptoDevice) (length : Nat) : Option (List Byte) × CryptoDevice :=
  let (raised, dev) := dev.waitInterrupt
  if raised then (some (dev.guest.memory.read dstIova length), dev) else (none, dev)

theorem transform_eq (dma : Dma DmaDescriptor) (dev : CryptoDevice) (command : BitVec 32)
    (text : List Byte) : transform dma dev command text =
      collected (writeReg dma (programmed dev text) regCryptoCmd command) text.length := by
  have setUp := writeReg_foldl dma
    ((dev.memcpy srcIova text).memcpy dstIova (List.replicate pageSize 0))
    (bufferProgram_silent (BitVec.ofNat 32 text.length))
  rw [foldl_bufferProgram] at setUp
  have reached : programmed dev text = _ := setUp.symm
  rw [reached]
  rfl

/-- The host has seen every interrupt of the engine, which is idle. -/
structure Ready (dev : CryptoDevice) : Prop where
  idle : dev.device.cryptoBusy = 0
  notifies : dev.device.parentObj.msixEnabled = true
  vector : dev.events.vector = 2
  drained : dev.events.Drained dev.guest

section Transform

variable {dma : Dma DmaDescriptor} {dev : CryptoDevice} (ready : dev.Ready) {text : List Byte}
  (fits : text.length ≤ 4096)

include fits

theorem toNat_len : (programmed dev text).device.cryptoLen.toNat = text.length := by
  show (BitVec.ofNat 32 text.length).toNat = text.length
  rw [BitVec.toNat_ofNat]
  omega

/-- The text reaches its page. -/
theorem read_programmed : (programmed dev text).guest.memory.read srcIova text.length = text := by
  have apart : Apart dstIova (List.replicate pageSize (0 : Byte)).length srcIova text.length := by
    rw [List.length_replicate]
    apply apart_of_order (by decide) (by simp; omega)
    right
    simp
    omega
  show ((dev.guest.memory.write srcIova text).write dstIova (List.replicate pageSize 0)).read
    srcIova text.length = text
  rw [Memory.read_write_apart _ _ _ _ _ apart, Memory.read_write_same _ _ _ (by omega)]

include ready

/-- A text of no whole number of blocks is not taken, and the host waits in vain. -/
theorem Ready.transform_ragged (ragged : text.length % 16 ≠ 0) (encrypts : Bool) :
    transform dma dev (command encrypts) text = (none, programmed dev text) := by
  have length : (programmed dev text).device.cryptoLen.toNat = text.length := toNat_len fits
  have declined : cappedLen (programmed dev text).device.cryptoLen % 16 ≠ 0 := by
    intro whole
    have blocks := congrArg BitVec.toNat whole
    rw [BitVec.toNat_umod, toNat_cappedLen, length, Nat.min_eq_left fits] at blocks
    exact ragged blocks
  have still : writeReg dma (programmed dev text) regCryptoCmd (command encrypts) =
      programmed dev text := by
    have write : cryptoAccess dma ((programmed dev text).device, (programmed dev text).guest)
        ⟨id, regCryptoCmd, command encrypts⟩ =
          ((programmed dev text).device, (programmed dev text).guest) := by
      show (if _ then eduCryptoStart _ _ _ _ else _) = _
      split
      · rw [eduCryptoStart, if_pos declined]
        rfl
      · rfl
    rw [writeReg, write]
  have silent : (programmed dev text).events.wait (programmed dev text).guest =
      (false, (programmed dev text).events) := by
    have drained : (programmed dev text).events.Drained (programmed dev text).guest := ready.drained
    exact drained.times_out (List.append_nil _).symm (by simp)
  rw [transform_eq, still, collected, VfioDevice.waitInterrupt_of_wait silent]
  rfl

/-- The engine transforms a text of whole blocks with the keys and the initial block that it holds. -/
theorem Ready.transform_whole (mapped : Mapped dma srcIova (2 * pageSize))
    (whole : text.length % 16 = 0) (encrypts : Bool) :
    ∃ guest, transform dma dev (command encrypts) text =
      (some (cbc encrypts dev.device.roundKeys dev.device.cryptoIv text text.length),
        ⟨(programmed dev text).device, guest, { dev.events with seen := guest.trace.length }⟩) := by
  let s := (programmed dev text).device
  let g := (programmed dev text).guest
  have length : s.cryptoLen.toNat = text.length := toNat_len fits
  have src : Inside srcIova (2 * pageSize) srcIova text.length :=
    ⟨le_refl _, Nat.add_le_add_left (fits.trans (by decide)) _⟩
  have dst : Inside srcIova (2 * pageSize) dstIova text.length := by
    refine ⟨by decide, ?_⟩
    show 0x301000 + text.length ≤ 0x300000 + 2 * 4096
    omega
  let out := cbc encrypts dev.device.roundKeys dev.device.cryptoIv text text.length
  let guest : Guest DmaDescriptor :=
    ⟨g.memory.write dstIova out, g.trace ++ operationTrace s text out⟩
  have ran : writeReg dma (programmed dev text) regCryptoCmd (command encrypts) =
      { programmed dev text with guest } := by
    have write := cryptoAccess_command dma g id encrypts (show s.cryptoBusy = 0 from ready.idle)
      (by rwa [length]) (by rwa [length])
      (fun trace => by rw [length]; exact mapped.reads trace _ _ src)
      (fun trace => by rw [length]; exact mapped.writes trace _ _ dst)
    have taken : (id g.memory).read s.cryptoSrc text.length = text := read_programmed fits
    dsimp only at write
    rw [length, taken] at write
    rw [writeReg, write]
    rfl
  have raised : (programmed dev text).events.wait guest =
      (true, { dev.events with seen := guest.trace.length }) := by
    have drained : (programmed dev text).events.Drained g := ready.drained
    have notifies : s.parentObj.msixEnabled = true := ready.notifies
    have grown : guest.trace = g.trace ++ operationTrace s text out := rfl
    refine drained.arrives grown ?_
    show .msixNotify dev.events.vector ∈ operationTrace s text out
    rw [ready.vector, operationTrace, if_pos notifies]
    simp
  have result : guest.memory.read dstIova text.length = out := by
    have put := Memory.read_write_same g.memory dstIova out
      (by rw [length_cbc _ _ _ _ whole]; omega)
    rwa [length_cbc _ _ _ _ whole] at put
  refine ⟨guest, ?_⟩
  rw [transform_eq, ran, collected, VfioDevice.waitInterrupt_of_wait raised]
  show (some (guest.memory.read dstIova text.length), _) = _
  rw [result]

end Transform

end CryptoDevice

/-- The engine is ready, and holds the initial block and the schedule of the key that was set. -/
structure Keyed (dev : CryptoDevice) (service : CipherService) : Prop where
  ready : dev.Ready
  iv : dev.device.cryptoIv = service.iv
  key : ∀ key ∈ service.key, dev.device.roundKeys = Aes.aesKeyExpand key

section Service

variable {dma : Dma DmaDescriptor} {dev : CryptoDevice} {service : CipherService}
  (keyed : Keyed dev service)

include keyed

theorem Keyed.setKey (key : Aes.AesBlock) :
    Keyed (CryptoDevice.setKey dma dev key) { service with key } := by
  rw [CryptoDevice.setKey_eq]
  refine ⟨⟨keyed.ready.idle, keyed.ready.notifies, keyed.ready.vector, keyed.ready.drained⟩,
    keyed.iv, ?_⟩
  rintro _ ⟨⟩
  rfl

theorem Keyed.setIv (iv : Aes.AesBlock) :
    Keyed (CryptoDevice.setIv dma dev iv) { service with iv } := by
  rw [CryptoDevice.setIv_eq]
  exact ⟨⟨keyed.ready.idle, keyed.ready.notifies, keyed.ready.vector, keyed.ready.drained⟩, rfl,
    keyed.key⟩

/-- The engine computes the chaining mode of the service on texts of whole blocks. -/
theorem Keyed.cbc_encrypt {text : List Byte} (whole : text.length % 16 = 0) (set : service.key ≠ none) :
    some (cbc true dev.device.roundKeys dev.device.cryptoIv text text.length) =
      service.encrypt text := by
  obtain ⟨key, known⟩ := Option.ne_none_iff_exists'.mp set
  have blocks : (text.length + 15) / 16 = text.length / 16 := by omega
  rw [CipherService.encrypt, if_pos whole, known, keyed.iv, keyed.key key known, cbc, if_pos rfl,
    Aes.aesCbcEncrypt_chaining, blocks, Aes.aesEncryptBlock_eq_standardCipher]
  rfl

theorem Keyed.cbc_decrypt {text : List Byte} (whole : text.length % 16 = 0) (set : service.key ≠ none) :
    some (cbc false dev.device.roundKeys dev.device.cryptoIv text text.length) =
      service.decrypt text := by
  obtain ⟨key, known⟩ := Option.ne_none_iff_exists'.mp set
  have blocks : (text.length + 15) / 16 = text.length / 16 := by omega
  rw [CipherService.decrypt, if_pos whole, known, keyed.iv, keyed.key key known, cbc,
    if_neg (by decide), Aes.aesCbcDecrypt_chaining, blocks, Aes.aesDecryptBlock_eq_standardCipher]
  rfl

/-- A transformation answers for whole blocks only, and leaves the engine as it is keyed. -/
theorem Keyed.transform (mapped : Mapped dma srcIova (2 * pageSize)) {text : List Byte}
    (fits : text.length ≤ 4096) (encrypts : Bool) :
    ∃ next, CryptoDevice.transform dma dev (command encrypts) text =
        (if text.length % 16 = 0 then
          some (cbc encrypts dev.device.roundKeys dev.device.cryptoIv text text.length)
        else none, next) ∧ Keyed next service := by
  by_cases whole : text.length % 16 = 0
  · obtain ⟨guest, transformed⟩ := keyed.ready.transform_whole fits mapped whole encrypts
    rw [if_pos whole]
    exact ⟨_, transformed, ⟨keyed.ready.idle, keyed.ready.notifies, keyed.ready.vector,
      EventFd.drained_read _ _⟩,
      keyed.iv, keyed.key⟩
  · rw [if_neg whole]
    exact ⟨_, keyed.ready.transform_ragged fits whole encrypts,
      ⟨keyed.ready.idle, keyed.ready.notifies, keyed.ready.vector, keyed.ready.drained⟩,
      keyed.iv, keyed.key⟩

/-- An encryption and its decryption are the same transformation under two commands. -/
theorem Keyed.encrypt (mapped : Mapped dma srcIova (2 * pageSize)) {text : List Byte}
    (fits : text.length ≤ 4096) (set : service.key ≠ none) :
    ∃ next, CryptoDevice.encrypt dma dev text = (service.encrypt text, next) ∧
      Keyed next service := by
  obtain ⟨next, transformed, still⟩ := keyed.transform mapped fits true
  refine ⟨next, ?_, still⟩
  have answer : (if text.length % 16 = 0 then
      some (cbc true dev.device.roundKeys dev.device.cryptoIv text text.length) else none) =
        service.encrypt text := by
    split
    next whole => exact keyed.cbc_encrypt whole set
    next ragged => rw [CipherService.encrypt, if_neg ragged]
  rw [← answer]
  exact transformed

theorem Keyed.decrypt (mapped : Mapped dma srcIova (2 * pageSize)) {text : List Byte}
    (fits : text.length ≤ 4096) (set : service.key ≠ none) :
    ∃ next, CryptoDevice.decrypt dma dev text = (service.decrypt text, next) ∧
      Keyed next service := by
  obtain ⟨next, transformed, still⟩ := keyed.transform mapped fits false
  refine ⟨next, ?_, still⟩
  have answer : (if text.length % 16 = 0 then
      some (cbc false dev.device.roundKeys dev.device.cryptoIv text text.length) else none) =
        service.decrypt text := by
    split
    next whole => exact keyed.cbc_decrypt whole set
    next ragged => rw [CipherService.decrypt, if_neg ragged]
  rw [← answer]
  exact transformed

end Service

/-- The driver with its engine is the service. -/
theorem cryptoDriver_refines {dma : Dma DmaDescriptor} (mapped : Mapped dma srcIova (2 * pageSize)) :
    Refines Keyed CryptoCall.Allowed (CryptoDevice.call dma) CipherService.call := by
  intro dev service call keyed allowed
  cases call with
  | setKey key => exact ⟨_, rfl, keyed.setKey key⟩
  | setIv iv => exact ⟨_, rfl, keyed.setIv iv⟩
  | encrypt text =>
      obtain ⟨next, encrypted, still⟩ := keyed.encrypt mapped allowed.1 allowed.2
      refine ⟨next, ?_, still⟩
      rw [CryptoDevice.call, encrypted]
      rfl
  | decrypt text =>
      obtain ⟨next, decrypted, still⟩ := keyed.decrypt mapped allowed.1 allowed.2
      refine ⟨next, ?_, still⟩
      rw [CryptoDevice.call, decrypted]
      rfl

end EduDevices
