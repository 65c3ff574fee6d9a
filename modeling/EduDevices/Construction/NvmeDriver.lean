import EduDevices.Library.CString
import EduDevices.Construction.Nvme
import EduDevices.Construction.Vfio

namespace EduDevices

abbrev queueSize : BitVec 16 := 16

/-- The host maps four pages: a queue of each kind and two pages of data. -/
abbrev dmaIova : Address := 0x100000
abbrev dmaSize : Nat := pageSize * 4

abbrev sqIova : Address := dmaIova
abbrev cqIova : Address := dmaIova + BitVec.ofNat 64 pageSize
abbrev dataIova : Address := dmaIova + BitVec.ofNat 64 (pageSize * 2)

abbrev NvmeDevice := VfioDevice EduNvmeState NvmeMark

/-- The host polls the status until the controller is ready, or gives up. -/
def NvmeDevice.waitReady (dev : NvmeDevice) : Nat → Bool
  | 0 => false
  | polls + 1 => if dev.read32 eduNvmeRead nvmeCsts &&& 1 ≠ 0 then true else waitReady dev polls

structure NvmeController where
  dev : NvmeDevice
  sqTail : BitVec 16
  cqHead : BitVec 16
  cmdId : BitVec 16

/-- What the host prints of the identify data. -/
structure Identity where
  status : BitVec 16
  vendor : BitVec 16
  serial : List Byte
  model : List Byte
  deriving DecidableEq

namespace NvmeController

def new (dev : NvmeDevice) : NvmeController := ⟨dev, 0, 0, 1⟩

variable (dma : Dma NvmeMark)

def init (c : NvmeController) : Except Fault (Bool × NvmeController) := do
  let dev ← c.dev.write32 (nvmeAccess dma) nvmeAqa (((16 - 1) <<< 16) ||| (16 - 1))
  let dev ← dev.write64 (nvmeAccess dma) nvmeAsq sqIova
  let dev ← dev.write64 (nvmeAccess dma) nvmeAcq cqIova
  let dev ← dev.write32 (nvmeAccess dma) nvmeCc 0x00460001
  return (NvmeDevice.waitReady dev 100, { c with dev })

def submitCmd (c : NvmeController) (cmd : NvmeCmd) : Except Fault NvmeController := do
  let cmd := { cmd with cid := c.cmdId }
  let dev := c.dev.memcpy (sqIova + c.sqTail.setWidth 64 * 64) cmd.encode
  let sqTail := (c.sqTail + 1) % queueSize
  let dev ← dev.write32 (nvmeAccess dma) nvmeSq0tdbl (sqTail.setWidth 32)
  return { dev, sqTail, cqHead := c.cqHead, cmdId := c.cmdId + 1 }

def waitCompletion (c : NvmeController) : Except Fault (Option NvmeCqe × NvmeController) := do
  let (raised, dev) := c.dev.waitInterrupt
  if raised then
    let cqe := NvmeCqe.decode (dev.guest.memory.read (cqIova + c.cqHead.setWidth 64 * 16) 16)
    let cqHead := (c.cqHead + 1) % queueSize
    let dev ← dev.write32 (nvmeAccess dma) nvmeCq0hdbl (cqHead.setWidth 32)
    return (some cqe, { c with dev, cqHead })
  else return (none, { c with dev })

/-- The commands of the host start as zeros. -/
def zeroed : NvmeCmd := ⟨0, 0, 0, 0, 0, 0, 0, 0, 0, 0, 0, 0, 0, 0⟩

def identify (c : NvmeController) : Except Fault (Option Identity × NvmeController) := do
  let cmd := { zeroed with opcode := nvmeCmdIdentify, prp1 := dataIova, cdw10 := 1 }
  let c ← submitCmd dma c cmd
  let (completed, c) ← waitCompletion dma c
  match completed with
  | none => return (none, c)
  | some cqe =>
      let id := c.dev.guest.memory.read dataIova pageSize
      return (some {
        status := cqe.status &&& 0xFF
        vendor := wordAt 16 id 0
        serial := CString.characters ((id.drop 4).take 20)
        model := CString.characters ((id.drop 24).take 40) }, c)

/-- The command is for one block, and its address keeps the low half of the number only. -/
def blockCmd (opcode : BitVec 8) (lba : BitVec 64) : NvmeCmd :=
  { zeroed with opcode, nsid := 1, prp1 := dataIova, cdw10 := lba.setWidth 32, cdw12 := 0 }

def writeData (c : NvmeController) (lba : BitVec 64) (data : List Byte) :
    Except Fault (Bool × NvmeController) := do
  let c := { c with dev := c.dev.memcpy dataIova data }
  let c ← submitCmd dma c (blockCmd nvmeCmdWrite lba)
  let (completed, c) ← waitCompletion dma c
  match completed with
  | none => return (false, c)
  | some cqe => return (cqe.status &&& 0xFF = 0, c)

/-- A read that times out leaves the buffer of its caller alone. -/
def readData (c : NvmeController) (lba : BitVec 64) (len : Nat) :
    Except Fault ((Bool × Option (List Byte)) × NvmeController) := do
  let c := { c with dev := c.dev.memcpy dataIova (List.replicate len 0) }
  let c ← submitCmd dma c (blockCmd nvmeCmdRead lba)
  let (completed, c) ← waitCompletion dma c
  match completed with
  | none => return ((false, none), c)
  | some cqe => return ((cqe.status &&& 0xFF = 0, c.dev.guest.memory.read dataIova len), c)

end NvmeController

inductive NvmeCall where
  | identify
  | writeData (lba : BitVec 64) (data : List Byte)
  | readData (lba : BitVec 64) (len : Nat)
  deriving DecidableEq

inductive NvmeReply where
  | identify (identity : Option Identity)
  | writeData (success : Bool)
  | readData (success : Bool) (data : Option (List Byte))
  deriving DecidableEq

def NvmeController.call (dma : Dma NvmeMark) (c : NvmeController) :
    NvmeCall → Except Fault (NvmeReply × NvmeController)
  | .identify => (c.identify dma).map fun (identity, c) => (.identify identity, c)
  | .writeData lba data => (writeData dma c lba data).map fun (success, c) => (.writeData success, c)
  | .readData lba len =>
      (readData dma c lba len).map fun ((success, data), c) => (.readData success data, c)

end EduDevices
