import EduDevices.Construction.Registers
import EduDevices.Construction.Vfio

namespace EduDevices

abbrev EduPciDevice := VfioDevice EduPciState DmaDescriptor

namespace EduPciDevice

abbrev srcIova : Address := 0x10000
abbrev dstIova : Address := 0x20000

def readReg (dev : EduPciDevice) (off : BitVec 64) : BitVec 32 := dev.read32 eduPciRead off

section Driver

variable (dma : Dma DmaDescriptor) (dev : EduPciDevice)

def writeReg (off : BitVec 64) (val : BitVec 32) : EduPciDevice :=
  let (device, guest) := eduPciWrite dma dev.device dev.guest off (val.setWidth 64)
  { dev with device, guest }

/-- What the host sees of a transfer: its interrupt, whether both buffers agree, and the data that
arrived. -/
structure DmaReport where
  raised : Bool
  ok : Bool
  text : List Byte
  deriving DecidableEq

/-- More than a page is not sent. -/
def doDma (data : List Byte) : DmaReport × EduPciDevice :=
  let data := data.take pageSize
  let len := data.length
  let dev := dev.memcpy srcIova data
  let dev := dev.memcpy dstIova (List.replicate pageSize 0)
  let dev := writeReg dma dev regDmaSrc (srcIova.setWidth 32)
  let dev := writeReg dma dev regDmaDst (dstIova.setWidth 32)
  let dev := writeReg dma dev regDmaLen (BitVec.ofNat 32 len)
  let dev := writeReg dma dev regDmaCmd 1
  let (raised, dev) := dev.waitInterrupt
  let src := dev.guest.memory.read srcIova len
  let dst := dev.guest.memory.read dstIova len
  (⟨raised, src = dst, dst⟩, dev)

def manualInterrupt (vector : BitVec 32) : Bool × EduPciDevice :=
  (writeReg dma dev regIrqRaise vector).waitInterrupt

end Driver

end EduPciDevice

inductive PciCall where
  | writeScratch (val : BitVec 32)
  | readScratch
  | factorial (n : BitVec 32)
  | manualInterrupt (vector : BitVec 32)
  | doDma (data : List Byte)
  deriving DecidableEq

inductive PciReply where
  | written
  | value (val : BitVec 32)
  | interrupt (raised : Bool)
  | report (result : EduPciDevice.DmaReport)
  deriving DecidableEq

/-- The host computes a factorial with a write and a read of one register. -/
def EduPciDevice.call (dma : Dma DmaDescriptor) (dev : EduPciDevice) :
    PciCall → Except Fault (PciReply × EduPciDevice)
  | .writeScratch val => .ok (.written, writeReg dma dev regScratch val)
  | .readScratch => .ok (.value (readReg dev regScratch), dev)
  | .factorial n =>
      let dev := writeReg dma dev regFactorial n
      .ok (.value (readReg dev regFactorial), dev)
  | .manualInterrupt vector =>
      let (raised, dev) := manualInterrupt dma dev vector
      .ok (.interrupt raised, dev)
  | .doDma data =>
      let (report, dev) := doDma dma dev data
      .ok (.report report, dev)

end EduDevices
