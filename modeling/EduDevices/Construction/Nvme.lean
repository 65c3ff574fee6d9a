import EduDevices.Construction.PciState

namespace EduDevices

@[match_pattern] abbrev nvmeCc : BitVec 64 := 0x14#64
@[match_pattern] abbrev nvmeAqa : BitVec 64 := 0x24#64
@[match_pattern] abbrev nvmeAsq : BitVec 64 := 0x28#64
@[match_pattern] abbrev nvmeAsqHigh : BitVec 64 := 0x2C#64
@[match_pattern] abbrev nvmeAcq : BitVec 64 := 0x30#64
@[match_pattern] abbrev nvmeAcqHigh : BitVec 64 := 0x34#64
@[match_pattern] abbrev nvmeSq0tdbl : BitVec 64 := 0x1000#64
@[match_pattern] abbrev nvmeCq0hdbl : BitVec 64 := 0x1004#64

abbrev nvmeCcEn : BitVec 64 := 1
abbrev nvmeCstsRdy : BitVec 32 := 1

@[match_pattern] abbrev nvmeCmdIdentify : BitVec 8 := 0x06#8
@[match_pattern] abbrev nvmeCmdRead : BitVec 8 := 0x02#8
@[match_pattern] abbrev nvmeCmdWrite : BitVec 8 := 0x01#8

abbrev blockSize : BitVec 64 := 512
abbrev numBlocks : BitVec 64 := 2048

structure NvmeCmd where
  opcode : BitVec 8
  flags : BitVec 8
  cid : BitVec 16
  nsid : BitVec 32
  rsvd : BitVec 64
  mptr : BitVec 64
  prp1 : BitVec 64
  prp2 : BitVec 64
  cdw10 : BitVec 32
  cdw11 : BitVec 32
  cdw12 : BitVec 32
  cdw13 : BitVec 32
  cdw14 : BitVec 32
  cdw15 : BitVec 32
  deriving DecidableEq

def NvmeCmd.decode (bytes : List Byte) : NvmeCmd where
  opcode := wordAt 8 bytes 0
  flags := wordAt 8 bytes 1
  cid := wordAt 16 bytes 2
  nsid := wordAt 32 bytes 4
  rsvd := wordAt 64 bytes 8
  mptr := wordAt 64 bytes 16
  prp1 := wordAt 64 bytes 24
  prp2 := wordAt 64 bytes 32
  cdw10 := wordAt 32 bytes 40
  cdw11 := wordAt 32 bytes 44
  cdw12 := wordAt 32 bytes 48
  cdw13 := wordAt 32 bytes 52
  cdw14 := wordAt 32 bytes 56
  cdw15 := wordAt 32 bytes 60

def NvmeCmd.encode (cmd : NvmeCmd) : List Byte :=
  littleEndian 1 cmd.opcode ++ littleEndian 1 cmd.flags ++ littleEndian 2 cmd.cid ++
    littleEndian 4 cmd.nsid ++ littleEndian 8 cmd.rsvd ++ littleEndian 8 cmd.mptr ++
    littleEndian 8 cmd.prp1 ++ littleEndian 8 cmd.prp2 ++ littleEndian 4 cmd.cdw10 ++
    littleEndian 4 cmd.cdw11 ++ littleEndian 4 cmd.cdw12 ++ littleEndian 4 cmd.cdw13 ++
    littleEndian 4 cmd.cdw14 ++ littleEndian 4 cmd.cdw15

theorem NvmeCmd.length_encode (cmd : NvmeCmd) : cmd.encode.length = 64 := by
  simp [encode]

theorem NvmeCmd.decode_encode (cmd : NvmeCmd) : decode cmd.encode = cmd := by
  simp [encode, decode, wordAt, List.drop_append, drop_littleEndian, take_littleEndian,
    fromLittleEndian_littleEndian]

def NvmeCmd.lba (cmd : NvmeCmd) : BitVec 64 :=
  cmd.cdw10.setWidth 64 ||| (cmd.cdw11.setWidth 64 <<< 32)

/-- The block count of a command is zero-based. -/
def NvmeCmd.nlb (cmd : NvmeCmd) : BitVec 32 := (cmd.cdw12 &&& (0xFFFF : BitVec 32)) + 1

structure NvmeCqe where
  result : BitVec 32
  rsvd : BitVec 32
  sqHead : BitVec 16
  sqId : BitVec 16
  cid : BitVec 16
  status : BitVec 16
  deriving DecidableEq

def NvmeCqe.encode (cqe : NvmeCqe) : List Byte :=
  littleEndian 4 cqe.result ++ littleEndian 4 cqe.rsvd ++ littleEndian 2 cqe.sqHead ++
    littleEndian 2 cqe.sqId ++ littleEndian 2 cqe.cid ++ littleEndian 2 cqe.status

theorem NvmeCqe.length_encode (cqe : NvmeCqe) : cqe.encode.length = 16 := by
  simp [encode]

def NvmeCqe.decode (bytes : List Byte) : NvmeCqe where
  result := wordAt 32 bytes 0
  rsvd := wordAt 32 bytes 4
  sqHead := wordAt 16 bytes 8
  sqId := wordAt 16 bytes 10
  cid := wordAt 16 bytes 12
  status := wordAt 16 bytes 14

theorem NvmeCqe.decode_encode (cqe : NvmeCqe) : decode cqe.encode = cqe := by
  simp [encode, decode, wordAt, List.drop_append, drop_littleEndian, take_littleEndian,
    fromLittleEndian_littleEndian]

/-- The storage is the memory behind the storage pointer, whose first 1 MiB is the disk. -/
structure EduNvmeState where
  parentObj : PCIDevice
  cc : BitVec 32
  csts : BitVec 32
  aqa : BitVec 32
  asq : BitVec 64
  acq : BitVec 64
  sqTail : BitVec 16
  sqHead : BitVec 16
  cqTail : BitVec 16
  cqHead : BitVec 16
  cqPhase : BitVec 8
  storage : Memory

/-- The realize function allocates the storage as zeros and sets the phase. -/
def EduNvmeState.realized (parentObj : PCIDevice) (outside : Memory) : EduNvmeState where
  parentObj := parentObj
  cc := 0
  csts := 0
  aqa := 0
  asq := 0
  acq := 0
  sqTail := 0
  sqHead := 0
  cqTail := 0
  cqHead := 0
  cqPhase := 1
  storage offset := if offset.toNat < 1024 * 1024 then 0 else outside offset

/-- The bytes of the identify data that are not zero. -/
def identifyByte : Nat → Byte
  | 0 => 0x34
  | 1 => 0x12
  | 4 => 0x45
  | 5 => 0x44
  | 6 => 0x55
  | 24 => 0x45
  | 25 => 0x44
  | 26 => 0x55
  | 27 => 0x2D
  | 28 => 0x4E
  | 29 => 0x56
  | 30 => 0x4D
  | 31 => 0x45
  | 77 => 5
  | 516 => 1
  | _ => 0

def identifyData : List Byte := (List.range 4096).map identifyByte

/-- A trace marks a command when its processing starts, and its completion and the slot for it
just before the slot is written. -/
inductive NvmeMark where
  | command (cmd : NvmeCmd)
  | completion (slot : Address) (cqe : NvmeCqe)

/-- The switch on the opcode gives the status and moves the data. -/
def nvmeTransfer (dma : Dma NvmeMark) (s : EduNvmeState) (g : Guest NvmeMark) (cmd : NvmeCmd) :
    BitVec 16 × EduNvmeState × Guest NvmeMark :=
  let offset := cmd.lba * blockSize
  let length := (cmd.nlb * blockSize.setWidth 32).toNat
  match cmd.opcode with
  | nvmeCmdIdentify =>
      if cmd.prp1 ≠ 0 then (0, s, (pciDmaWrite dma g cmd.prp1 identifyData).2) else (0, s, g)
  | nvmeCmdRead =>
      if cmd.lba + cmd.nlb.setWidth 64 > numBlocks then (0x8002, s, g)
      else
        let (res, g) := pciDmaWrite dma g cmd.prp1 (s.storage.read offset length)
        (if res = .ok then 0 else 0x8004, s, g)
  | nvmeCmdWrite =>
      if cmd.lba + cmd.nlb.setWidth 64 > numBlocks then (0x8002, s, g)
      else
        let (res, data, g) := pciDmaRead dma g cmd.prp1 (s.storage.read offset length)
        let s := { s with storage := s.storage.write offset data }
        (if res = .ok then 0 else 0x8004, s, g)
  | _ => (0x0001, s, g)

/-- The completion queue tail moves to the next slot; the phase toggles at the wrap. -/
def advanceCqTail (s : EduNvmeState) : EduNvmeState :=
  let cqSize : BitVec 32 := (s.aqa >>> 16) + 1
  let s := { s with cqTail := s.cqTail + 1 }
  if s.cqTail.setWidth 32 ≥ cqSize then { s with cqTail := 0, cqPhase := s.cqPhase ^^^ 1 } else s

def eduNvmeProcessCmd (dma : Dma NvmeMark) (s : EduNvmeState) (g : Guest NvmeMark)
    (cmd : NvmeCmd) : EduNvmeState × Guest NvmeMark :=
  let sqHead := s.sqHead
  let (status, s, g) := nvmeTransfer dma s (g.log (.mark (.command cmd))) cmd
  let phase : BitVec 16 := s.cqPhase.setWidth 16 <<< 8
  let cqe : NvmeCqe :=
    { result := 0, rsvd := 0, sqHead, sqId := 0, cid := cmd.cid, status := status ||| phase }
  let cqeAddr : Address := s.acq + s.cqTail.setWidth 64 * 16
  let (_, g) := pciDmaWrite dma (g.log (.mark (.completion cqeAddr cqe))) cqeAddr cqe.encode
  let s := advanceCqTail s
  (s, if s.parentObj.msixEnabled then msixNotify g 0 else g)

def advanceSqHead (sqSize : BitVec 16) (s : EduNvmeState) : EduNvmeState :=
  let s := { s with sqHead := s.sqHead + 1 }
  if s.sqHead ≥ sqSize then { s with sqHead := 0 } else s

/-- A turn fetches into the local command, which a failed fetch may leave as it was. -/
def sqTurn (dma : Dma NvmeMark) (sqSize : BitVec 16) (cmd : List Byte) (s : EduNvmeState)
    (g : Guest NvmeMark) : List Byte × EduNvmeState × Guest NvmeMark :=
  let sqeAddr : Address := s.asq + s.sqHead.setWidth 64 * 64
  let (_, cmd, g) := pciDmaRead dma g sqeAddr cmd
  let (s, g) := eduNvmeProcessCmd dma s g (NvmeCmd.decode cmd)
  (cmd, advanceSqHead sqSize s, g)

/-- The loop of the source has no bound, so running out of turns is not returning. -/
def sqLoop (dma : Dma NvmeMark) (sqSize : BitVec 16) :
    Nat → List Byte → EduNvmeState → Guest NvmeMark → Except Fault (EduNvmeState × Guest NvmeMark)
  | 0, _, _, _ => .error .noReturn
  | turns + 1, cmd, s, g =>
      if s.sqHead ≠ s.sqTail then
        let (cmd, s, g) := sqTurn dma sqSize cmd s g
        sqLoop dma sqSize turns cmd s g
      else .ok (s, g)

/-- A loop that has not stopped after one turn for each head never stops. -/
def eduNvmeProcessSq (dma : Dma NvmeMark) (s : EduNvmeState) (g : Guest NvmeMark) :
    Except Fault (EduNvmeState × Guest NvmeMark) :=
  let sqSize : BitVec 16 := ((s.aqa &&& (0xFFF : BitVec 32)) + 1).setWidth 16
  sqLoop dma sqSize (2 ^ 16 + 1) (stackBuffer dma g 64) s g

def eduNvmeWrite (dma : Dma NvmeMark) (s : EduNvmeState) (g : Guest NvmeMark)
    (addr val : BitVec 64) : Except Fault (EduNvmeState × Guest NvmeMark) :=
  match addr with
  | nvmeCc =>
      let s := { s with cc := val.setWidth 32 }
      if val &&& nvmeCcEn ≠ 0 then
        .ok ({ s with
          csts := s.csts ||| nvmeCstsRdy
          sqHead := 0
          sqTail := 0
          cqHead := 0
          cqTail := 0
          cqPhase := 1 }, g)
      else .ok ({ s with csts := s.csts &&& ~~~nvmeCstsRdy }, g)
  | nvmeAqa => .ok ({ s with aqa := val.setWidth 32 }, g)
  | nvmeAsq => .ok ({ s with asq := withLow s.asq val }, g)
  | nvmeAsqHigh => .ok ({ s with asq := withHigh s.asq val }, g)
  | nvmeAcq => .ok ({ s with acq := withLow s.acq val }, g)
  | nvmeAcqHigh => .ok ({ s with acq := withHigh s.acq val }, g)
  | nvmeSq0tdbl => eduNvmeProcessSq dma { s with sqTail := val.setWidth 16 } g
  | nvmeCq0hdbl => .ok ({ s with cqHead := val.setWidth 16 }, g)
  | _ => .ok (s, g)

@[match_pattern] abbrev nvmeCap : BitVec 64 := 0x00#64
@[match_pattern] abbrev nvmeCapHigh : BitVec 64 := 0x04#64
@[match_pattern] abbrev nvmeVs : BitVec 64 := 0x08#64
@[match_pattern] abbrev nvmeCsts : BitVec 64 := 0x1C#64

def eduNvmeRead (s : EduNvmeState) (addr : BitVec 64) : BitVec 64 :=
  match addr with
  | nvmeCap => 0x003F0001
  | nvmeCapHigh => 0
  | nvmeVs => 0x00010400
  | nvmeCc => s.cc.setWidth 64
  | nvmeCsts => s.csts.setWidth 64
  | nvmeAqa => s.aqa.setWidth 64
  | nvmeAsq => s.asq
  | nvmeAsqHigh => s.asq >>> 32
  | nvmeAcq => s.acq
  | nvmeAcqHigh => s.acq >>> 32
  | _ => 0

/-- The memory core passes four-byte writes on, so the value is at most 32 bits wide. -/
def nvmeAccess (dma : Dma NvmeMark) (machine : EduNvmeState × Guest NvmeMark)
    (write : HostWrite) : Except Fault (EduNvmeState × Guest NvmeMark) :=
  eduNvmeWrite dma machine.1 (machine.2.rewrite write.host) write.addr (write.val.setWidth 64)

end EduDevices
