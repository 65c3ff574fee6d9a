import EduDevices.Construction.PciState

namespace EduDevices

@[match_pattern] abbrev regCryptoId : BitVec 64 := 0x00#64
@[match_pattern] abbrev regCryptoStatus : BitVec 64 := 0x04#64
@[match_pattern] abbrev regCryptoSrcLo : BitVec 64 := 0x08#64
@[match_pattern] abbrev regCryptoSrcHi : BitVec 64 := 0x0C#64
@[match_pattern] abbrev regCryptoDstLo : BitVec 64 := 0x10#64
@[match_pattern] abbrev regCryptoDstHi : BitVec 64 := 0x14#64
@[match_pattern] abbrev regCryptoLen : BitVec 64 := 0x18#64
@[match_pattern] abbrev regCryptoCmd : BitVec 64 := 0x1C#64
abbrev regCryptoKey : BitVec 64 := 0x20#64
abbrev regCryptoIv : BitVec 64 := 0x30#64

abbrev cryptoCmdStart : BitVec 64 := 1
abbrev cryptoCmdEncrypt : BitVec 64 := 2

/-- The copy replaces the bytes from an offset on, as far as the data and the array reach. -/
def memcpy {size : Nat} (array : Vector Byte size) (offset : Nat) (data : List Byte) :
    Vector Byte size :=
  Vector.ofFn fun i =>
    if offset ≤ i.val then data.getD (i.val - offset) (array.get i) else array.get i

theorem getElem_memcpy {size : Nat} (array : Vector Byte size) (offset : Nat) (data : List Byte)
    (i : Nat) (inside : i < size) :
    (memcpy array offset data)[i] =
      if offset ≤ i then data.getD (i - offset) array[i] else array[i] :=
  Vector.getElem_ofFn ..

/-- The key, the IV and the round keys are adjacent, so a copy can run from one into the next. -/
def EduPciState.memcpyCrypto (s : EduPciState) (offset : Nat) (data : List Byte) : EduPciState :=
  let bytes := memcpy (s.cryptoKey ++ s.cryptoIv ++ s.roundKeys) offset data
  { s with
    cryptoKey := Vector.ofFn fun i => bytes[i.val]
    cryptoIv := Vector.ofFn fun i => bytes[16 + i.val]
    roundKeys := Vector.ofFn fun i => bytes[32 + i.val] }

/-- The result of the read is ignored and its buffer is used whatever the read left there. -/
def eduCryptoStart (dma : Dma DmaDescriptor) (s : EduPciState) (g : Guest DmaDescriptor)
    (val : BitVec 64) : EduPciState × Guest DmaDescriptor :=
  let len := cappedLen s.cryptoLen
  if len % 16 ≠ 0 then (s, g)
  else
    let s := { s with cryptoBusy := 1 }
    let (_, buf, g) := pciDmaRead dma g s.cryptoSrc (stackBuffer dma g len.toNat)
    let out :=
      if val &&& cryptoCmdEncrypt ≠ 0 then Aes.aesCbcEncrypt s.roundKeys s.cryptoIv buf len.toNat
      else Aes.aesCbcDecrypt s.roundKeys s.cryptoIv buf len.toNat
    let (_, g) := pciDmaWrite dma g s.cryptoDst out
    let s := { s with cryptoBusy := 0 }
    if s.parentObj.msixEnabled then (s, msixNotify g 2) else (s, g)

def eduCryptoWrite (dma : Dma DmaDescriptor) (s : EduPciState) (g : Guest DmaDescriptor)
    (addr val : BitVec 64) (size : Nat) : EduPciState × Guest DmaDescriptor :=
  match addr with
  | regCryptoSrcLo => ({ s with cryptoSrc := withLow s.cryptoSrc val }, g)
  | regCryptoSrcHi => ({ s with cryptoSrc := withHigh s.cryptoSrc val }, g)
  | regCryptoDstLo => ({ s with cryptoDst := withLow s.cryptoDst val }, g)
  | regCryptoDstHi => ({ s with cryptoDst := withHigh s.cryptoDst val }, g)
  | regCryptoLen => ({ s with cryptoLen := val.setWidth 32 }, g)
  | regCryptoCmd =>
      if val &&& cryptoCmdStart ≠ 0 ∧ s.cryptoBusy = 0 then eduCryptoStart dma s g val
      else (s, g)
  | addr =>
      if addr ≥ regCryptoKey ∧ addr < regCryptoKey + 16 then
        let idx := (addr - regCryptoKey).toNat
        let s := s.memcpyCrypto idx (littleEndian size val)
        if idx + size ≥ 16 then ({ s with roundKeys := Aes.aesKeyExpand s.cryptoKey }, g)
        else (s, g)
      else if addr ≥ regCryptoIv ∧ addr < regCryptoIv + 16 then
        let idx := (addr - regCryptoIv).toNat
        (s.memcpyCrypto (16 + idx) (littleEndian size val), g)
      else (s, g)

/-- The copy of the IV fills the low bytes of a variable that nothing has set, and goes on into
the round keys near the end of the IV. -/
def eduCryptoRead (s : EduPciState) (addr : BitVec 64) (size : Nat) (unset : BitVec 64) :
    BitVec 64 :=
  match addr with
  | regCryptoId => 0x0ED0AE55
  | regCryptoStatus => (1 ||| (s.cryptoBusy <<< 1)).setWidth 64
  | regCryptoSrcLo => s.cryptoSrc &&& 0xFFFFFFFF
  | regCryptoSrcHi => s.cryptoSrc >>> 32
  | regCryptoDstLo => s.cryptoDst &&& 0xFFFFFFFF
  | regCryptoDstHi => s.cryptoDst >>> 32
  | regCryptoLen => s.cryptoLen.setWidth 64
  | regCryptoCmd => s.cryptoBusy.setWidth 64
  | addr =>
      if addr ≥ regCryptoIv ∧ addr < regCryptoIv + 16 then
        let idx := (addr - regCryptoIv).toNat
        let copied := ((s.cryptoIv ++ s.roundKeys).toList.drop idx).take size
        fromLittleEndian 64 (copied ++ (littleEndian 8 unset).drop size)
      else 0xFFFFFFFF

/-- The memory core passes four-byte writes on. -/
def cryptoAccess (dma : Dma DmaDescriptor) (machine : EduPciState × Guest DmaDescriptor)
    (write : HostWrite) : EduPciState × Guest DmaDescriptor :=
  eduCryptoWrite dma machine.1 (machine.2.rewrite write.host) write.addr (write.val.setWidth 64) 4

/-- The widths of an access of the guest. -/
inductive AccessWidth where
  | byte
  | half
  | word
  deriving DecidableEq

def AccessWidth.bytes : AccessWidth → Nat
  | .byte => 1
  | .half => 2
  | .word => 4

/-- The part of a value that an access of this width carries. -/
def AccessWidth.cut (width : AccessWidth) (val : BitVec 64) : BitVec 64 :=
  (val.setWidth (8 * width.bytes)).setWidth 64

/-- A read comes with what its handler finds in the variable that it may leave unset. -/
inductive AccessKind where
  | read (unset : BitVec 64)
  | write (val : BitVec 64)

/-- An access of the guest is aligned to its width. -/
structure GuestAccess where
  host : Memory → Memory
  addr : BitVec 64
  width : AccessWidth
  kind : AccessKind
  aligned : addr.toNat % width.bytes = 0

/-- The memory core enters the handlers with size 4, extends what is written and cuts what is read. -/
def cryptoGuestAccess (dma : Dma DmaDescriptor) (machine : EduPciState × Guest DmaDescriptor)
    (access : GuestAccess) : (EduPciState × Guest DmaDescriptor) × Option (BitVec 64) :=
  let g := machine.2.rewrite access.host
  match access.kind with
  | .read unset =>
      ((machine.1, g), some (access.width.cut (eduCryptoRead machine.1 access.addr 4 unset)))
  | .write val => (eduCryptoWrite dma machine.1 g access.addr (access.width.cut val) 4, none)

end EduDevices
