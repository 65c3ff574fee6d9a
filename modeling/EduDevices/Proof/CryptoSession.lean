import EduDevices.Proof.AesChaining
import EduDevices.Proof.CryptoKey

namespace EduDevices

/-- The word of a block that the host writes to a register of it. -/
def blockWord (block : Aes.AesBlock) (word : Nat) : BitVec 32 := wordAt 32 block.toList (4 * word)

def blockWords (base : BitVec 64) (block : Aes.AesBlock) : List (BitVec 64 × BitVec 32) :=
  (List.range 4).map fun word => (wordOffset base word, blockWord block word)

/-- The offsets and values that set up one operation of the engine. -/
def programming (key iv : Aes.AesBlock) (src dst : Address) (len : BitVec 32) :
    List (BitVec 64 × BitVec 32) :=
  blockWords regCryptoKey key ++ blockWords regCryptoIv iv ++
    [(regCryptoSrcLo, lowHalf src), (regCryptoSrcHi, highHalf src),
      (regCryptoDstLo, lowHalf dst), (regCryptoDstHi, highHalf dst), (regCryptoLen, len)]

def HostWrite.entry (write : HostWrite) : BitVec 64 × BitVec 32 := (write.addr, write.val)

def isKeyOffset (addr : BitVec 64) : Bool := regCryptoKey ≤ addr && addr < regCryptoKey + 16

/-- A program makes each write once, in any order that keeps the key words ascending. -/
structure Programs (program : List HostWrite) (key iv : Aes.AesBlock) (src dst : Address)
    (len : BitVec 32) : Prop where
  entries : (program.map HostWrite.entry).Perm (programming key iv src dst len)
  ascending : (program.map HostWrite.entry).filter (isKeyOffset ·.1) =
    blockWords regCryptoKey key

theorem byteOf_wordAt (bytes : List Byte) (offset index : Nat) (inside : index < 4) :
    byteOf (wordAt 32 bytes offset) index = bytes.getD (offset + index) 0 := by
  apply BitVec.eq_of_getLsbD_eq
  intro position within
  have quotient : (8 * index + position) / 8 = index := by omega
  have remainder : (8 * index + position) % 8 = position := by omega
  have small : 8 * index + position < 32 := by omega
  rw [byteOf, BitVec.getLsbD_setWidth, BitVec.getLsbD_ushiftRight, wordAt,
    getLsbD_fromLittleEndian, quotient, remainder]
  simp [small, inside, within]

theorem byteOf_blockWord (block : Aes.AesBlock) (i : Nat) (inside : i < 16) :
    byteOf (blockWord block (i / 4)) (i % 4) = block[i] := by
  rw [blockWord, byteOf_wordAt _ _ _ (Nat.mod_lt _ (by decide)), Nat.div_add_mod,
    List.getD_eq_getElem _ _ (by simpa using inside), Vector.getElem_toList]

/-- A value that is written once, in whatever place, is the last word of its offset. -/
theorem lastWord_entry {program : List HostWrite} {entries : List (BitVec 64 × BitVec 32)}
    (perm : (program.map HostWrite.entry).Perm entries) {addr : BitVec 64} {val : BitVec 32}
    (once : entries.filter (·.1 = addr) = [(addr, val)]) :
    lastWord addr program = some val := by
  have filtered := perm.filter (fun entry => decide (entry.1 = addr))
  rw [once, List.perm_singleton, List.filter_map] at filtered
  have single : (program.filter (·.addr = addr)).map HostWrite.entry = [(addr, val)] := filtered
  obtain ⟨write, found, same⟩ := List.map_eq_singleton_iff.mp single
  rw [lastWord, found]
  exact congrArg some (congrArg Prod.snd same)

/-- A half of a register takes the value that is written to it and keeps it otherwise. -/
theorem getLsbD_halvesWrite {low high : BitVec 64} (distinct : low ≠ high) (write : HostWrite)
    (register : BitVec 64) (position : Nat) (inside : position < 64) :
    (halvesWrite low high write register).getLsbD position =
      if write.addr = (if position < 32 then low else high) then
        write.val.getLsbD (position % 32)
      else register.getLsbD position := by
  have wide (val : BitVec 32) (place : Nat) (within : place < 64) :
      (val.setWidth 64).getLsbD place = val.getLsbD place := by
    simp [within]
  unfold halvesWrite
  by_cases lower : position < 32
  · rw [if_pos lower, Nat.mod_eq_of_lt lower]
    split
    · rw [getLsbD_withLow, wide _ _ inside]
      simp [lower]
    split
    · rw [getLsbD_withHigh]
      simp [lower]
    · rfl
  · have back : position % 32 = position - 32 := by omega
    rw [if_neg lower, back]
    split
    next hit =>
      rw [getLsbD_withLow, wide _ _ inside, hit, if_neg distinct,
        BitVec.getLsbD_of_ge write.val position (by omega)]
      simp [lower]
    next =>
      split
      · rw [getLsbD_withHigh, wide _ _ (by omega)]
        simp [lower, inside]
      · rfl

theorem getLsbD_foldl_halvesWrite {low high : BitVec 64} (distinct : low ≠ high)
    (writes : List HostWrite) (register : BitVec 64) (position : Nat) (inside : position < 64) :
    (writes.foldl (fun register write => halvesWrite low high write register) register).getLsbD
        position =
      match lastWord (if position < 32 then low else high) writes with
      | some val => val.getLsbD (position % 32)
      | none => register.getLsbD position := by
  induction writes using List.reverseRecOn with
  | nil => rfl
  | append_singleton writes write ih =>
      rw [List.foldl_append, lastWord_snoc]
      simp only [List.foldl_cons, List.foldl_nil]
      rw [getLsbD_halvesWrite distinct write _ position inside]
      by_cases hit : write.addr = if position < 32 then low else high
      · rw [if_pos hit, if_pos hit]
      · rw [if_neg hit, if_neg hit]
        exact ih

/-- A register whose halves were both written holds the value of the halves. -/
theorem foldl_halvesWrite {low high : BitVec 64} (distinct : low ≠ high)
    {writes : List HostWrite} {val : BitVec 64} (register : BitVec 64)
    (lowWritten : lastWord low writes = some (lowHalf val))
    (highWritten : lastWord high writes = some (highHalf val)) :
    writes.foldl (fun register write => halvesWrite low high write register) register = val := by
  apply BitVec.eq_of_getLsbD_eq
  intro position inside
  rw [getLsbD_foldl_halvesWrite distinct writes register position inside]
  by_cases lower : position < 32
  · rw [if_pos lower, lowWritten]
    simp [lowHalf, lower, Nat.mod_eq_of_lt lower]
  · have place : 32 + position % 32 = position := by omega
    rw [if_neg lower, highWritten]
    simp [highHalf, place, Nat.mod_lt position (show 0 < 32 by decide)]

theorem foldl_cryptoLen (writes : List HostWrite) (cryptoLen : BitVec 32) :
    writes.foldl (fun len write => if write.addr = regCryptoLen then write.val else len) cryptoLen =
      (lastWord regCryptoLen writes).getD cryptoLen := by
  induction writes using List.reverseRecOn with
  | nil => rfl
  | append_singleton writes write ih =>
      rw [List.foldl_append, lastWord_snoc]
      simp only [List.foldl_cons, List.foldl_nil]
      split
      · rfl
      · exact ih

section Program

variable {program : List HostWrite} {key iv : Aes.AesBlock} {src dst : Address} {len : BitVec 32}

theorem Programs.key_word (programs : Programs program key iv src dst len) {word : Nat}
    (inside : word < 4) :
    lastWord (wordOffset regCryptoKey word) program = some (blockWord key word) := by
  apply lastWord_entry programs.entries
  interval_cases word <;> rfl

theorem Programs.iv_word (programs : Programs program key iv src dst len) {word : Nat}
    (inside : word < 4) :
    lastWord (wordOffset regCryptoIv word) program = some (blockWord iv word) := by
  apply lastWord_entry programs.entries
  interval_cases word <;> rfl

/-- Programming is aligned and starts no operation. -/
theorem Programs.offsets (programs : Programs program key iv src dst len) :
    ∀ write ∈ program, write.Aligned ∧ write.addr ≠ regCryptoCmd := by
  intro write member
  have listed := programs.entries.mem_iff.mp (List.mem_map_of_mem (f := HostWrite.entry) member)
  have offsets : ∀ entry ∈ programming key iv src dst len,
      entry.1.toNat % 4 = 0 ∧ entry.1 ≠ regCryptoCmd := by
    simp only [programming, blockWords, List.range_succ, List.range_zero, List.nil_append,
      List.cons_append, List.map_cons, List.map_nil, List.forall_mem_cons, List.not_mem_nil,
      false_implies, implies_true, and_true]
    and_intros <;> decide
  exact offsets _ listed

theorem Programs.key_block (programs : Programs program key iv src dst len)
    (block : Aes.AesBlock) :
    program.foldl (fun block write => blockWrite regCryptoKey write block) block = key := by
  apply Vector.ext
  intro i inside
  rw [getElem_foldl_blockWrite, programs.key_word (show i / 4 < 4 by omega)]
  exact byteOf_blockWord key i inside

theorem Programs.iv_block (programs : Programs program key iv src dst len)
    (block : Aes.AesBlock) :
    program.foldl (fun block write => blockWrite regCryptoIv write block) block = iv := by
  apply Vector.ext
  intro i inside
  rw [getElem_foldl_blockWrite, programs.iv_word (show i / 4 < 4 by omega)]
  exact byteOf_blockWord iv i inside

/-- The last key word is written after the other three, so the round keys are of the whole key. -/
theorem Programs.roundKeys (programs : Programs program key iv src dst len) (s : EduPciState) :
    (program.foldl registered s).roundKeys = Aes.aesKeyExpand key := by
  have written : ∃ write ∈ program, write.addr = wordOffset regCryptoKey 3 := by
    have listed : (wordOffset regCryptoKey 3, blockWord key 3) ∈ programming key iv src dst len := by
      simp [programming, blockWords, List.range_succ]
    obtain ⟨write, member, entry⟩ := List.mem_map.mp (programs.entries.mem_iff.mpr listed)
    exact ⟨write, member, congrArg Prod.fst entry⟩
  obtain ⟨before, write, after, rfl, expands, last⟩ := exists_last_write _ program written
  rw [roundKeys_expanded s before write after expands last]
  congr 1
  -- No key word is written after the last one, which closes the ascending sequence.
  have none : ∀ later ∈ after, isKeyOffset later.addr = false := by
    intro later member
    by_contra keyed
    let rest := (after.map HostWrite.entry).filter (isKeyOffset ·.1)
    have kept : later.entry ∈ rest := List.mem_filter.mpr
      ⟨List.mem_map_of_mem member, Bool.eq_true_of_not_eq_false keyed⟩
    obtain ⟨final, closing⟩ := Option.isSome_iff_exists.mp
      (List.getLast?_isSome.mpr (List.ne_nil_of_mem kept))
    have ascending := congrArg List.getLast? programs.ascending
    rw [show before ++ write :: after = before ++ [write] ++ after by simp, List.map_append,
      List.filter_append, List.getLast?_append, closing] at ascending
    have offset : final.1 = wordOffset regCryptoKey 3 :=
      congrArg Prod.fst (Option.some.inj ascending)
    obtain ⟨source, within, rfl⟩ := List.mem_map.mp
      (List.mem_filter.mp (List.mem_of_getLast? closing)).1
    exact last source within offset
  rw [foldl_registered_key]
  apply Vector.ext
  intro i inside
  have word := programs.key_word (show i / 4 < 4 by omega)
  rw [show before ++ write :: after = before ++ [write] ++ after by simp,
    lastWord_append _ _ after] at word
  · rw [getElem_foldl_blockWrite, word]
    exact byteOf_blockWord key i inside
  · intro later member same
    have inBlock : ∀ word < 4, isKeyOffset (wordOffset regCryptoKey word) = true := by decide
    have outside := none later member
    rw [same, inBlock (i / 4) (by omega)] at outside
    cases outside

end Program

/-- The six parts of the engine that programming writes. -/
def withCrypto (s : EduPciState) (cryptoSrc cryptoDst : Address) (cryptoLen : BitVec 32)
    (cryptoKey cryptoIv : Aes.AesBlock) (roundKeys : Aes.RoundKeys) : EduPciState :=
  { s with cryptoSrc, cryptoDst, cryptoLen, cryptoKey, cryptoIv, roundKeys }

theorem withCrypto_withCrypto (s : EduPciState) (src src' dst dst' : Address)
    (len len' : BitVec 32) (key key' iv iv' : Aes.AesBlock) (rk rk' : Aes.RoundKeys) :
    withCrypto (withCrypto s src dst len key iv rk) src' dst' len' key' iv' rk' =
      withCrypto s src' dst' len' key' iv' rk' := rfl

/-- Writes reach nothing but the six parts. -/
theorem foldl_registered_frame (writes : List HostWrite) (s : EduPciState) :
    let final := writes.foldl registered s
    final = withCrypto s final.cryptoSrc final.cryptoDst final.cryptoLen final.cryptoKey
      final.cryptoIv final.roundKeys := by
  induction writes generalizing s with
  | nil => rfl
  | cons write rest ih => exact (ih (registered s write)).trans (withCrypto_withCrypto s ..)

/-- The offsets and values that set up the two buffers. -/
def bufferWords (src dst : Address) (len : BitVec 32) : List (BitVec 64 × BitVec 32) :=
  [(regCryptoSrcLo, lowHalf src), (regCryptoSrcHi, highHalf src),
    (regCryptoDstLo, lowHalf dst), (regCryptoDstHi, highHalf dst), (regCryptoLen, len)]

/-- A program that makes each write to the buffers once sets them up, in any order. -/
theorem program_device {program : List HostWrite} {entries : List (BitVec 64 × BitVec 32)}
    (perm : (program.map HostWrite.entry).Perm entries)
    (aligned : ∀ write ∈ program, write.Aligned) {src dst : Address} {len : BitVec 32}
    (once : ∀ entry ∈ bufferWords src dst len, entries.filter (·.1 = entry.1) = [entry])
    (dma : Dma DmaDescriptor) (s : EduPciState) (g : Guest DmaDescriptor) :
    (program.foldl (cryptoAccess dma) (s, g)).1 =
      withCrypto s src dst len
        (program.foldl (fun block write => blockWrite regCryptoKey write block) s.cryptoKey)
        (program.foldl (fun block write => blockWrite regCryptoIv write block) s.cryptoIv)
        (program.foldl registered s).roundKeys := by
  have written : ∀ entry ∈ bufferWords src dst len, lastWord entry.1 program = some entry.2 :=
    fun entry member => lastWord_entry perm (once entry member)
  simp only [bufferWords, List.forall_mem_cons, List.not_mem_nil, false_implies, implies_true,
    and_true] at written
  obtain ⟨srcLow, srcHigh, dstLow, dstHigh, last⟩ := written
  have source : (program.foldl registered s).cryptoSrc = src :=
    (List.foldl_hom EduPciState.cryptoSrc fun _ _ => rfl).symm.trans
      (foldl_halvesWrite (by decide) s.cryptoSrc srcLow srcHigh)
  have destination : (program.foldl registered s).cryptoDst = dst :=
    (List.foldl_hom EduPciState.cryptoDst fun _ _ => rfl).symm.trans
      (foldl_halvesWrite (by decide) s.cryptoDst dstLow dstHigh)
  have length : (program.foldl registered s).cryptoLen = len := by
    refine (List.foldl_hom EduPciState.cryptoLen fun _ _ => rfl).symm.trans
      ((foldl_cryptoLen program s.cryptoLen).trans ?_)
    rw [last]
    rfl
  have block : (program.foldl registered s).cryptoIv =
      program.foldl (fun block write => blockWrite regCryptoIv write block) s.cryptoIv :=
    (List.foldl_hom EduPciState.cryptoIv fun _ _ => rfl).symm
  rw [run_registered dma s g aligned]
  refine (foldl_registered_frame program s).trans ?_
  rw [source, destination, length, foldl_registered_key, block]

/-- A program sets the engine up for its operation, from any state and in any order. -/
theorem Programs.device {program : List HostWrite} {key iv : Aes.AesBlock} {src dst : Address}
    {len : BitVec 32} (programs : Programs program key iv src dst len)
    (dma : Dma DmaDescriptor) (s : EduPciState) (g : Guest DmaDescriptor) :
    (program.foldl (cryptoAccess dma) (s, g)).1 =
      withCrypto s src dst len key iv (Aes.aesKeyExpand key) := by
  have once : ∀ entry ∈ bufferWords src dst len,
      (programming key iv src dst len).filter (·.1 = entry.1) = [entry] := by
    simp only [bufferWords, List.forall_mem_cons, List.not_mem_nil, false_implies, implies_true,
      and_true]
    and_intros <;> rfl
  rw [program_device programs.entries (fun write member => (programs.offsets write member).1) once,
    programs.key_block, programs.iv_block, programs.roundKeys]

/-- The transformation that a command selects. -/
def cbc (encrypts : Bool) (rk : Aes.RoundKeys) (iv : Aes.AesBlock) (data : List Byte)
    (len : Nat) : List Byte :=
  if encrypts then Aes.aesCbcEncrypt rk iv data len else Aes.aesCbcDecrypt rk iv data len

theorem length_cbc (encrypts : Bool) (rk : Aes.RoundKeys) (iv : Aes.AesBlock) (data : List Byte)
    {len : Nat} (whole : len % 16 = 0) : (cbc encrypts rk iv data len).length = len := by
  obtain ⟨count, rfl⟩ := Nat.dvd_of_mod_eq_zero whole
  rw [Nat.mul_comm]
  cases encrypts with
  | true => exact Aes.length_aesCbcEncrypt rk iv data count
  | false => exact Aes.length_aesCbcDecrypt rk iv data count

/-- The start command with the encrypt bit, or alone. -/
def command (encrypts : Bool) : BitVec 32 := if encrypts then 3 else 1

theorem command_starts (encrypts : Bool) :
    (command encrypts).setWidth 64 &&& cryptoCmdStart ≠ 0 := by
  cases encrypts <;> decide

theorem command_encrypts (encrypts : Bool) :
    (command encrypts).setWidth 64 &&& cryptoCmdEncrypt ≠ 0 ↔ encrypts = true := by
  cases encrypts <;> decide

/-- The command and its transfers, as the trace records them. -/
def operationTrace (s : EduPciState) (data out : List Byte) : List (Event DmaDescriptor) :=
  [.dmaRead s.cryptoSrc data .ok, .dmaWrite s.cryptoDst out .ok] ++
    if s.parentObj.msixEnabled then [.msixNotify 2] else []

/-- An idle engine transforms the source bytes, writes them to the destination and notifies. -/
theorem cryptoAccess_command (dma : Dma DmaDescriptor) {s : EduPciState}
    (g : Guest DmaDescriptor) (host : Memory → Memory) (encrypts : Bool) (idle : s.cryptoBusy = 0)
    (whole : s.cryptoLen.toNat % 16 = 0) (bounded : s.cryptoLen.toNat ≤ 4096)
    (reads : ∀ trace, dma.readFault trace s.cryptoSrc s.cryptoLen.toNat = none)
    (writes : ∀ trace, dma.writeFault trace s.cryptoDst s.cryptoLen.toNat = none) :
    let data := (host g.memory).read s.cryptoSrc s.cryptoLen.toNat
    let out := cbc encrypts s.roundKeys s.cryptoIv data s.cryptoLen.toNat
    cryptoAccess dma (s, g) ⟨host, regCryptoCmd, command encrypts⟩ =
      (s, ⟨(host g.memory).write s.cryptoDst out, g.trace ++ operationTrace s data out⟩) := by
  dsimp only
  have entered : cryptoAccess dma (s, g) ⟨host, regCryptoCmd, command encrypts⟩ =
      eduCryptoStart dma s (g.rewrite host) ((command encrypts).setWidth 64) :=
    if_pos ⟨command_starts encrypts, idle⟩
  have capped : cappedLen s.cryptoLen = s.cryptoLen := by
    apply BitVec.eq_of_toNat_eq
    rw [toNat_cappedLen, Nat.min_eq_left bounded]
  have blocks : ¬ s.cryptoLen % 16 ≠ 0 := by
    rw [not_not]
    apply BitVec.eq_of_toNat_eq
    exact whole
  have selected (data : List Byte) :
      (if (command encrypts).setWidth 64 &&& cryptoCmdEncrypt ≠ 0 then
        Aes.aesCbcEncrypt s.roundKeys s.cryptoIv data s.cryptoLen.toNat
      else Aes.aesCbcDecrypt s.roundKeys s.cryptoIv data s.cryptoLen.toNat) =
        cbc encrypts s.roundKeys s.cryptoIv data s.cryptoLen.toNat := by
    simp only [command_encrypts, cbc]
  rw [entered]
  unfold eduCryptoStart
  dsimp only
  rw [capped, if_neg blocks, pciDmaRead_of_ok (by simpa using reads _), length_stackBuffer,
    selected, pciDmaWrite_of_ok (by rw [length_cbc _ _ _ _ whole]; exact writes _)]
  unfold operationTrace
  have released := released_idle idle
  split <;> simp [msixNotify, Guest.log] <;> exact released

/-- Programming does not reach the bytes that the host spares. -/
theorem read_program {dma : Dma DmaDescriptor} {program : List HostWrite} {base : Address}
    {length : Nat}
    (silent : ∀ write ∈ program, write.addr ≠ regCryptoCmd)
    (spared : ∀ write ∈ program, Spares write.host base length)
    (machine : EduPciState × Guest DmaDescriptor) :
    (program.foldl (cryptoAccess dma) machine).2.memory.read base length =
      machine.2.memory.read base length := by
  induction program generalizing machine with
  | nil => rfl
  | cons write rest ih =>
      obtain ⟨s, g⟩ := machine
      rw [List.foldl_cons, ih (fun later member => silent later (List.mem_cons_of_mem write member))
        (fun later member => spared later (List.mem_cons_of_mem write member)),
        cryptoAccess_guest dma s g (silent write List.mem_cons_self)]
      exact (spared write List.mem_cons_self).read g.memory

/-- A programmed engine runs the command on the programmed buffers. -/
theorem Programs.command {dma : Dma DmaDescriptor} {s : EduPciState} (g : Guest DmaDescriptor)
    {program : List HostWrite} {key iv : Aes.AesBlock} {src dst : Address} {len : BitVec 32}
    (programs : Programs program key iv src dst len) (idle : s.cryptoBusy = 0)
    (whole : len.toNat % 16 = 0) (bounded : len.toNat ≤ 4096)
    (reads : ∀ trace, dma.readFault trace src len.toNat = none)
    (writes : ∀ trace, dma.writeFault trace dst len.toNat = none)
    (host : Memory → Memory) (encrypts : Bool) :
    let ready := program.foldl (cryptoAccess dma) (s, g)
    let data := (host ready.2.memory).read src len.toNat
    let out := cbc encrypts (Aes.aesKeyExpand key) iv data len.toNat
    cryptoAccess dma ready ⟨host, regCryptoCmd, EduDevices.command encrypts⟩ =
      (ready.1, ⟨(host ready.2.memory).write dst out,
        ready.2.trace ++ operationTrace ready.1 data out⟩) := by
  have device := programs.device dma s g
  dsimp only
  generalize program.foldl (cryptoAccess dma) (s, g) = ready at device ⊢
  obtain ⟨ready, guest⟩ := ready
  dsimp only at device ⊢
  subst device
  exact cryptoAccess_command dma guest host encrypts idle whole bounded reads writes

theorem read_write_cbc (memory : Memory) (address : Address) (encrypts : Bool)
    (rk : Aes.RoundKeys) (iv : Aes.AesBlock) (data : List Byte) {len : BitVec 32}
    (whole : len.toNat % 16 = 0) :
    (memory.write address (cbc encrypts rk iv data len.toNat)).read address len.toNat =
      cbc encrypts rk iv data len.toNat := by
  have size := length_cbc encrypts rk iv data whole
  have written := Memory.read_write_same memory address (cbc encrypts rk iv data len.toNat)
    (by rw [size]; exact len.isLt.le.trans (by decide))
  rwa [size] at written

/-- A session leaves the transform of the source at the destination and nothing else, and a second
session that decrypts what the first encrypted restores the source. -/
theorem cryptoSession (dma : Dma DmaDescriptor) (s : EduPciState) (g : Guest DmaDescriptor)
    (idle : s.cryptoBusy = 0) (key iv : Aes.AesBlock) (src dst : Address) (len : BitVec 32)
    (whole : len.toNat % 16 = 0) (bounded : len.toNat ≤ 4096)
    (reads : ∀ trace, dma.readFault trace src len.toNat = none)
    (writes : ∀ trace, dma.writeFault trace dst len.toNat = none)
    (program : List HostWrite) (programs : Programs program key iv src dst len)
    (host : Memory → Memory) :
    let rk := Aes.aesKeyExpand key
    let ready := program.foldl (cryptoAccess dma) (s, g)
    let before := host ready.2.memory
    let data := before.read src len.toNat
    let final (encrypts : Bool) :=
      cryptoAccess dma ready ⟨host, regCryptoCmd, command encrypts⟩
    (final true).2.memory.read dst len.toNat = Aes.aesCbcEncrypt rk iv data len.toNat ∧
    (final false).2.memory.read dst len.toNat = Aes.aesCbcDecrypt rk iv data len.toNat ∧
    (∀ encrypts,
      (∀ address, ¬ Within dst len.toNat address →
        (final encrypts).2.memory address = before address) ∧
      (final encrypts).1 = ready.1 ∧
      ready.1 = withCrypto s src dst len key iv rk ∧
      (final encrypts).1.cryptoBusy = 0 ∧
      (final encrypts).2.trace = ready.2.trace ++
        operationTrace ready.1 data (cbc encrypts rk iv data len.toNat)) ∧
    ∀ third again later, Programs again key iv dst third len →
      (∀ trace, dma.readFault trace dst len.toNat = none) →
      (∀ trace, dma.writeFault trace third len.toNat = none) →
      (∀ write ∈ again, Spares write.host dst len.toNat) → Spares later dst len.toNat →
        (cryptoAccess dma (again.foldl (cryptoAccess dma) (final true))
          ⟨later, regCryptoCmd, command false⟩).2.memory.read third len.toNat = data := by
  intro rk ready before data final
  have device := programs.device dma s g
  have operation := programs.command g idle whole bounded reads writes host
  have still : ready.1.cryptoBusy = 0 := by
    rw [device]
    exact idle
  refine ⟨?_, ?_, ?_, ?_⟩
  · change (cryptoAccess dma ready _).2.memory.read dst len.toNat = _
    rw [operation true]
    exact read_write_cbc _ _ true _ _ _ whole
  · change (cryptoAccess dma ready _).2.memory.read dst len.toNat = _
    rw [operation false]
    exact read_write_cbc _ _ false _ _ _ whole
  · intro encrypts
    have done : final encrypts = _ := operation encrypts
    rw [done]
    refine ⟨?_, rfl, device, still, rfl⟩
    intro address outside
    apply Memory.write_outside
    rwa [length_cbc _ _ _ _ whole]
  · intro third again later reprograms rereads rewrites spared sparedLater
    have done : final true = _ := operation true
    rw [done, reprograms.command _ still whole bounded rereads rewrites later false]
    dsimp only
    rw [read_write_cbc _ _ false _ _ _ whole]
    -- The second session reads the ciphertext that the first one left.
    have kept : Spares later dst len.toNat := sparedLater
    rw [kept.read, read_program (fun write member => (reprograms.offsets write member).2) spared]
    change cbc false rk iv (Memory.read (Memory.write before dst
      (cbc true rk iv data len.toNat)) dst len.toNat) len.toNat = data
    rw [read_write_cbc _ _ true _ _ _ whole]
    obtain ⟨count, blocks⟩ := Nat.dvd_of_mod_eq_zero whole
    rw [blocks, Nat.mul_comm]
    exact Aes.aesCbcDecrypt_aesCbcEncrypt rk iv data count
      ((Memory.length_read _ _ _).trans (blocks.trans (Nat.mul_comm _ _)))

/-- Two blocks are encrypted in place by an engine that is programmed in the listed order. -/
theorem cryptoSession_inPlace :
    let key : Aes.AesBlock := Vector.ofFn fun i => BitVec.ofNat 8 i
    let iv : Aes.AesBlock := Vector.replicate 16 0x42
    let program : List HostWrite :=
      (programming key iv 0x1000 0x1000 32).map fun entry => ⟨id, entry.1, entry.2⟩
    let dma : Dma DmaDescriptor := DmaPattern.reliable.dma fun _ _ => 0
    let ready := program.foldl (cryptoAccess dma)
      (EduPciState.zeroed ⟨true⟩, ⟨fun address => address.setWidth 8, []⟩)
    (cryptoAccess dma ready ⟨id, regCryptoCmd, command true⟩).2.memory.read 0x1000 32 =
      Aes.aesCbcEncrypt (Aes.aesKeyExpand key) iv (Memory.read (id ready.2.memory) 0x1000 32) 32 := by
  intro key iv program dma ready
  have programs : Programs program key iv 0x1000 0x1000 32 := ⟨.refl _, rfl⟩
  exact (cryptoSession dma _ _ rfl key iv 0x1000 0x1000 32 (by decide) (by decide)
    (fun _ => rfl) (fun _ => rfl) program programs id).1

end EduDevices
