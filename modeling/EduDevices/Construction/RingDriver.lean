import EduDevices.Construction.Ring
import EduDevices.Construction.Vfio

namespace EduDevices

abbrev RingDmaDevice := VfioDevice EduPciState DmaDescriptor

namespace RingDmaDevice

abbrev numDescriptors : BitVec 32 := 16
abbrev ringIova : Address := 0x100000
abbrev dataIova : Address := 0x200000

abbrev descStatusPending : BitVec 32 := 0

def getSrcIova (idx : Nat) : Address := dataIova + BitVec.ofNat 64 (idx * 2 * pageSize)

def getDstIova (idx : Nat) : Address := dataIova + BitVec.ofNat 64 ((idx * 2 + 1) * pageSize)

/-- The descriptors are the elements of an array. -/
def slotIova (idx : Nat) : Address := ringIova + BitVec.ofNat 64 (32 * idx)

section Driver

variable (dma : Dma DmaDescriptor)

def writeReg (dev : RingDmaDevice) (off : BitVec 64) (val : BitVec 32) :
    Except Fault RingDmaDevice :=
  dev.write32 (ringAccess dma) off val

def setupRing (dev : RingDmaDevice) : Except Fault RingDmaDevice := do
  let dev := dev.memcpy ringIova (List.replicate pageSize 0)
  let dev ← writeReg dma dev regRingAddrLo ((ringIova &&& 0xFFFFFFFF).setWidth 32)
  let dev ← writeReg dma dev regRingAddrHi ((ringIova >>> 32).setWidth 32)
  let dev ← writeReg dma dev regRingSize numDescriptors
  writeReg dma dev regRingCtrl (ringCtrlEnable.setWidth 32)

/-- The fields of a slot are set one after the other; nobody sets the reserved word. -/
def fillSlot (dev : RingDmaDevice) (idx : Nat) (message : List Byte) (last : Bool) :
    RingDmaDevice :=
  let dev := dev.memcpy (getSrcIova idx) message
  let dev := dev.memcpy (getDstIova idx) (List.replicate pageSize 0)
  let srcIova := getSrcIova idx
  let dstIova := getDstIova idx
  let flags := if last then descFlagValid ||| descFlagInt else descFlagValid
  dev.memcpy (slotIova idx) (([(srcIova &&& 0xFFFFFFFF).setWidth 32, (srcIova >>> 32).setWidth 32,
    (dstIova &&& 0xFFFFFFFF).setWidth 32, (dstIova >>> 32).setWidth 32,
    BitVec.ofNat 32 message.length, flags, descStatusPending] : List (BitVec 32)).flatMap
      (littleEndian 4))

/-- The last descriptor of a batch asks for the interrupt. -/
def fillBatch (dev : RingDmaDevice) (startIdx : BitVec 32) : List (List Byte) → RingDmaDevice
  | [] => dev
  | message :: rest =>
      fillBatch (fillSlot dev (startIdx % numDescriptors).toNat message rest.isEmpty)
        (startIdx + 1) rest

/-- What the host finds in a slot and its buffers after the batch. -/
structure DescResult where
  status : BitVec 32
  ok : Bool
  text : List Byte
  deriving DecidableEq

def checkSlot (dev : RingDmaDevice) (idx length : Nat) : DescResult :=
  let memory := dev.guest.memory
  { status := wordAt 32 (memory.read (slotIova idx) 32) 0x18
    ok := memory.read (getSrcIova idx) length = memory.read (getDstIova idx) length
    text := memory.read (getDstIova idx) length }

def checkBatch (dev : RingDmaDevice) (startIdx : BitVec 32) : List (List Byte) → List DescResult
  | [] => []
  | message :: rest =>
      checkSlot dev (startIdx % numDescriptors).toNat message.length ::
        checkBatch dev (startIdx + 1) rest

structure BatchReport where
  raised : Bool
  head : BitVec 32
  results : List DescResult
  deriving DecidableEq

def batchDescriptors (dev : RingDmaDevice) (messages : List (List Byte)) :
    Except Fault (BatchReport × RingDmaDevice) := do
  let startIdx := dev.read32 eduRingRead regRingHead
  let dev := fillBatch dev startIdx messages
  let newTail := (startIdx + BitVec.ofNat 32 messages.length) % numDescriptors
  let dev ← writeReg dma dev regRingTail newTail
  let (raised, dev) := dev.waitInterrupt
  return (⟨raised, dev.read32 eduRingRead regRingHead, checkBatch dev startIdx messages⟩, dev)

end Driver

end RingDmaDevice

end EduDevices
