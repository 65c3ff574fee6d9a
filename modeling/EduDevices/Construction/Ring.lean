import EduDevices.Construction.PciState

namespace EduDevices

@[match_pattern] abbrev regRingId : BitVec 64 := 0x00#64
@[match_pattern] abbrev regRingStatus : BitVec 64 := 0x04#64
@[match_pattern] abbrev regRingAddrLo : BitVec 64 := 0x08#64
@[match_pattern] abbrev regRingAddrHi : BitVec 64 := 0x0C#64
@[match_pattern] abbrev regRingSize : BitVec 64 := 0x10#64
@[match_pattern] abbrev regRingHead : BitVec 64 := 0x14#64
@[match_pattern] abbrev regRingTail : BitVec 64 := 0x18#64
@[match_pattern] abbrev regRingCtrl : BitVec 64 := 0x1C#64

abbrev ringCtrlEnable : BitVec 64 := 1

abbrev descFlagValid : BitVec 32 := 1
abbrev descFlagInt : BitVec 32 := 2

abbrev descStatusComplete : BitVec 32 := 1
abbrev descStatusError : BitVec 32 := 2

abbrev descSize : BitVec 32 := 32
abbrev maxRingSize : BitVec 64 := 256

/-- The descriptor that the head points at starts here. -/
def descAddr (s : EduPciState) : BitVec 64 := s.ringAddr + (s.ringHead * descSize).setWidth 64

/-- A descriptor is marked in the trace where the source prints it, just before its transfer. -/
def eduRingProcessOne (dma : Dma DmaDescriptor) (s : EduPciState) (g : Guest DmaDescriptor) :
    PciOutcome :=
  let (res, bytes, g) := pciDmaRead dma g (descAddr s) (stackBuffer dma g 32)
  if res ≠ .ok then .ok (s, g)
  else
    let desc := DmaDescriptor.decode bytes
    if desc.flags &&& descFlagValid = 0 then .ok (s, g)
    else
      let g := g.log (.mark desc)
      let (res, buf, g) := pciDmaRead dma g desc.srcAddr (stackBuffer dma g desc.len.toNat)
      let (status, g) :=
        if res ≠ .ok then (descStatusError, g)
        else (descStatusComplete, (pciDmaWrite dma g desc.dstAddr buf).2)
      let (_, g) := pciDmaWrite dma g (descAddr s + 0x18) (littleEndian 4 status)
      do
        let ringHead ← modulo (s.ringHead + 1) s.ringSize
        let s := { s with ringHead }
        if desc.flags &&& descFlagInt ≠ 0 ∧ s.parentObj.msixEnabled then
          .ok (s, msixNotify g 1)
        else .ok (s, g)

/-- The loop has `remaining = ring_size - count` turns left; no turn changes `ring_size`. -/
def ringLoop (dma : Dma DmaDescriptor) :
    Nat → EduPciState → Guest DmaDescriptor → PciOutcome
  | 0, s, g => .ok (s, g)
  | remaining + 1, s, g =>
      if s.ringHead ≠ s.ringTail then do
        let (s, g) ← eduRingProcessOne dma s g
        ringLoop dma remaining s g
      else .ok (s, g)

def eduRingProcess (dma : Dma DmaDescriptor) (s : EduPciState) (g : Guest DmaDescriptor) :
    PciOutcome :=
  if s.ringEnabled = 0 ∨ s.ringSize = 0 then .ok (s, g)
  else ringLoop dma s.ringSize.toNat s g

def eduRingRead (s : EduPciState) (addr : BitVec 64) : BitVec 64 :=
  match addr with
  | regRingId => 0x0ED0CAFE
  | regRingStatus =>
      let running : BitVec 32 := if s.ringHead ≠ s.ringTail then 1 else 0
      (s.ringEnabled ||| (running <<< 1)).setWidth 64
  | regRingAddrLo => s.ringAddr &&& (0xFFFFFFFF : BitVec 64)
  | regRingAddrHi => s.ringAddr >>> 32
  | regRingSize => s.ringSize.setWidth 64
  | regRingHead => s.ringHead.setWidth 64
  | regRingTail => s.ringTail.setWidth 64
  | regRingCtrl => s.ringEnabled.setWidth 64
  | _ => 0xFFFFFFFF

/-- The size that the register accepts is a power of two up to the maximum. -/
def ringSizeAccepted (val : BitVec 64) : Bool :=
  val > 0 && val ≤ maxRingSize && (val &&& (val - 1)) == 0

def eduRingWrite (dma : Dma DmaDescriptor) (s : EduPciState) (g : Guest DmaDescriptor)
    (addr val : BitVec 64) : PciOutcome :=
  match addr with
  | regRingAddrLo => .ok ({ s with ringAddr := withLow s.ringAddr val }, g)
  | regRingAddrHi => .ok ({ s with ringAddr := withHigh s.ringAddr val }, g)
  | regRingSize =>
      if ringSizeAccepted val then
        .ok ({ s with ringSize := val.setWidth 32, ringHead := 0, ringTail := 0 }, g)
      else .ok (s, g)
  | regRingTail => do
      let tail ← modulo val (s.ringSize.setWidth 64)
      let s := { s with ringTail := tail.setWidth 32 }
      if s.ringEnabled ≠ 0 then eduRingProcess dma s g else .ok (s, g)
  | regRingCtrl =>
      let s := { s with ringEnabled := (val &&& ringCtrlEnable).setWidth 32 }
      if s.ringEnabled ≠ 0 ∧ s.ringHead ≠ s.ringTail then eduRingProcess dma s g else .ok (s, g)
  | _ => .ok (s, g)

/-- The memory core passes four-byte writes on, so the value is at most 32 bits wide. -/
def ringAccess (dma : Dma DmaDescriptor) (machine : EduPciState × Guest DmaDescriptor)
    (write : HostWrite) : PciOutcome :=
  eduRingWrite dma machine.1 (machine.2.rewrite write.host) write.addr (write.val.setWidth 64)

end EduDevices
