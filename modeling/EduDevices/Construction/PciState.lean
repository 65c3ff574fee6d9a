import EduDevices.Library.Dma
import EduDevices.Construction.Aes

namespace EduDevices

/-- The part of the parent object that the handlers consult. -/
structure PCIDevice where
  msixEnabled : Bool
  deriving DecidableEq

structure EduPciState where
  parentObj : PCIDevice
  scratch : BitVec 32
  factorialOut : BitVec 32
  dmaSrc : BitVec 64
  dmaDst : BitVec 64
  dmaLen : BitVec 32
  dmaBusy : BitVec 32
  p2pAddr : BitVec 64
  p2pData : BitVec 32
  atsAddr : BitVec 64
  ringAddr : BitVec 64
  ringSize : BitVec 32
  ringHead : BitVec 32
  ringTail : BitVec 32
  ringEnabled : BitVec 32
  cryptoSrc : BitVec 64
  cryptoDst : BitVec 64
  cryptoLen : BitVec 32
  cryptoBusy : BitVec 32
  cryptoKey : Aes.AesBlock
  cryptoIv : Aes.AesBlock
  roundKeys : Aes.RoundKeys
  deriving DecidableEq

/-- The object is allocated as zeros and the realize function leaves its registers so. -/
def EduPciState.zeroed (parentObj : PCIDevice) : EduPciState where
  parentObj := parentObj
  scratch := 0
  factorialOut := 0
  dmaSrc := 0
  dmaDst := 0
  dmaLen := 0
  dmaBusy := 0
  p2pAddr := 0
  p2pData := 0
  atsAddr := 0
  ringAddr := 0
  ringSize := 0
  ringHead := 0
  ringTail := 0
  ringEnabled := 0
  cryptoSrc := 0
  cryptoDst := 0
  cryptoLen := 0
  cryptoBusy := 0
  cryptoKey := Vector.replicate 16 0
  cryptoIv := Vector.replicate 16 0
  roundKeys := Vector.replicate 176 0

abbrev dmaMaxLen : BitVec 32 := 4096

/-- Every engine cuts the length that it is given to the size of its buffer. -/
def cappedLen (len : BitVec 32) : BitVec 32 := if len > dmaMaxLen then dmaMaxLen else len

theorem toNat_cappedLen (len : BitVec 32) : (cappedLen len).toNat = min len.toNat 4096 := by
  unfold cappedLen
  split
  next longer =>
    have more : 4096 < len.toNat := longer
    exact (Nat.min_eq_right more.le).symm
  next within =>
    have most : len.toNat ≤ 4096 := Nat.le_of_not_lt within
    exact (Nat.min_eq_left most).symm

theorem cappedLen_le (len : BitVec 32) : (cappedLen len).toNat ≤ 4096 := by
  rw [toNat_cappedLen]
  exact Nat.min_le_right _ _

/-- The low half of a 64-bit register is replaced without masking the new value. -/
def withLow (register val : BitVec 64) : BitVec 64 :=
  (register &&& 0xFFFFFFFF00000000) ||| val

def withHigh (register val : BitVec 64) : BitVec 64 :=
  (register &&& (0xFFFFFFFF : BitVec 64)) ||| (val <<< 32)

structure DmaDescriptor where
  srcAddrLo : BitVec 32
  srcAddrHi : BitVec 32
  dstAddrLo : BitVec 32
  dstAddrHi : BitVec 32
  length : BitVec 32
  flags : BitVec 32
  status : BitVec 32
  reserved : BitVec 32
  deriving DecidableEq

/-- The fields of a descriptor are the words of its buffer. -/
def DmaDescriptor.decode (bytes : List Byte) : DmaDescriptor where
  srcAddrLo := wordAt 32 bytes 0x00
  srcAddrHi := wordAt 32 bytes 0x04
  dstAddrLo := wordAt 32 bytes 0x08
  dstAddrHi := wordAt 32 bytes 0x0C
  length := wordAt 32 bytes 0x10
  flags := wordAt 32 bytes 0x14
  status := wordAt 32 bytes 0x18
  reserved := wordAt 32 bytes 0x1C

def DmaDescriptor.encode (desc : DmaDescriptor) : List Byte :=
  [desc.srcAddrLo, desc.srcAddrHi, desc.dstAddrLo, desc.dstAddrHi, desc.length, desc.flags,
    desc.status, desc.reserved].flatMap (littleEndian 4)

def DmaDescriptor.srcAddr (desc : DmaDescriptor) : BitVec 64 :=
  (desc.srcAddrHi.setWidth 64 <<< 32) ||| desc.srcAddrLo.setWidth 64

def DmaDescriptor.dstAddr (desc : DmaDescriptor) : BitVec 64 :=
  (desc.dstAddrHi.setWidth 64 <<< 32) ||| desc.dstAddrLo.setWidth 64

def DmaDescriptor.len (desc : DmaDescriptor) : BitVec 32 := cappedLen desc.length

theorem DmaDescriptor.length_encode (desc : DmaDescriptor) : desc.encode.length = 32 := by
  simp [encode]

theorem DmaDescriptor.decode_encode (desc : DmaDescriptor) : decode desc.encode = desc := by
  have words (word : BitVec 32) : fromLittleEndian 32 (littleEndian 4 word) = word :=
    fromLittleEndian_littleEndian 4 word (by decide)
  simp only [encode, List.flatMap_cons, List.flatMap_nil]
  simp [decode, wordAt, List.drop_append, drop_littleEndian,
    take_littleEndian, words]

/-- What the handlers of the physical function leave behind. -/
abbrev PciOutcome := Except Fault (EduPciState × Guest DmaDescriptor)

/-- A register write of the host, which may have rewritten its memory since the one before. -/
structure HostWrite where
  host : Memory → Memory
  addr : BitVec 64
  val : BitVec 32

end EduDevices
