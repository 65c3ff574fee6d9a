import EduDevices.Construction.PciState

namespace EduDevices

@[match_pattern] abbrev regId : BitVec 64 := 0x00#64
@[match_pattern] abbrev regScratch : BitVec 64 := 0x04#64
@[match_pattern] abbrev regFactorial : BitVec 64 := 0x08#64
@[match_pattern] abbrev regStatus : BitVec 64 := 0x0C#64
@[match_pattern] abbrev regDmaSrc : BitVec 64 := 0x10#64
@[match_pattern] abbrev regDmaDst : BitVec 64 := 0x14#64
@[match_pattern] abbrev regDmaLen : BitVec 64 := 0x18#64
@[match_pattern] abbrev regDmaCmd : BitVec 64 := 0x1C#64
@[match_pattern] abbrev regVfId : BitVec 64 := 0x20#64
@[match_pattern] abbrev regIrqRaise : BitVec 64 := 0x24#64
@[match_pattern] abbrev regIrqAck : BitVec 64 := 0x28#64
@[match_pattern] abbrev regP2pAddr : BitVec 64 := 0x2C#64
@[match_pattern] abbrev regP2pData : BitVec 64 := 0x30#64
@[match_pattern] abbrev regP2pCmd : BitVec 64 := 0x34#64
@[match_pattern] abbrev regAtsAddr : BitVec 64 := 0x38#64
@[match_pattern] abbrev regAtsCmd : BitVec 64 := 0x3C#64

abbrev eduMsixVectors : BitVec 64 := 4

structure EduPciVfState where
  scratch : BitVec 32
  factorialOut : BitVec 32
  dmaSrc : BitVec 64
  dmaDst : BitVec 64
  dmaLen : BitVec 32
  dmaBusy : BitVec 32
  deriving DecidableEq

/-- The loop multiplies by the numbers up to `n`, and by none above 12. -/
def factorial (n : BitVec 32) : BitVec 32 :=
  Nat.fold 11 (fun i _ result =>
    if BitVec.ofNat 32 (2 + i) ≤ n then result * BitVec.ofNat 32 (2 + i) else result) 1

/-- The copy of both functions writes its buffer out whatever the read left there. -/
def dmaCopy (dma : Dma DmaDescriptor) (g : Guest DmaDescriptor) (src dst : Address)
    (dmaLen : BitVec 32) : Guest DmaDescriptor :=
  let len := cappedLen dmaLen
  let (_, buf, g) := pciDmaRead dma g src (stackBuffer dma g len.toNat)
  (pciDmaWrite dma g dst buf).2

def eduPciRead (s : EduPciState) (addr : BitVec 64) : BitVec 64 :=
  match addr with
  | regId => 0x0ED00001
  | regScratch => s.scratch.setWidth 64
  | regFactorial => s.factorialOut.setWidth 64
  | regStatus => (1 ||| (s.dmaBusy <<< 1)).setWidth 64
  | regDmaSrc => s.dmaSrc
  | regDmaDst => s.dmaDst
  | regDmaLen => s.dmaLen.setWidth 64
  | regDmaCmd => s.dmaBusy.setWidth 64
  | regVfId => 0
  | regP2pAddr => s.p2pAddr
  | regP2pData => s.p2pData.setWidth 64
  | regAtsAddr => s.atsAddr
  | _ => 0xFFFFFFFF

def eduPciWrite (dma : Dma DmaDescriptor) (s : EduPciState) (g : Guest DmaDescriptor)
    (addr val : BitVec 64) : EduPciState × Guest DmaDescriptor :=
  match addr with
  | regScratch => ({ s with scratch := val.setWidth 32 }, g)
  | regFactorial => ({ s with factorialOut := factorial (val.setWidth 32) }, g)
  | regDmaSrc => ({ s with dmaSrc := val }, g)
  | regDmaDst => ({ s with dmaDst := val }, g)
  | regDmaLen => ({ s with dmaLen := val.setWidth 32 }, g)
  | regDmaCmd =>
      if val = 1 ∧ s.dmaBusy = 0 then
        let s := { s with dmaBusy := 1 }
        let g := dmaCopy dma g s.dmaSrc s.dmaDst s.dmaLen
        let s := { s with dmaBusy := 0 }
        if s.parentObj.msixEnabled then (s, msixNotify g 0) else (s, g)
      else (s, g)
  | regIrqRaise =>
      if s.parentObj.msixEnabled ∧ val < eduMsixVectors then (s, msixNotify g val.toNat)
      else if ¬ s.parentObj.msixEnabled then (s, g.log (.intx true))
      else (s, g)
  | regIrqAck => (s, g.log (.intx false))
  | regP2pAddr => ({ s with p2pAddr := val }, g)
  | regP2pData => ({ s with p2pData := val.setWidth 32 }, g)
  | regP2pCmd =>
      if val = 1 then (s, (pciDmaWrite dma g s.p2pAddr (littleEndian 4 s.p2pData)).2) else (s, g)
  | regAtsAddr => ({ s with atsAddr := val }, g)
  | regAtsCmd =>
      if val = 1 then (s, (pciDmaRead dma g s.atsAddr (stackBuffer dma g 0)).2.2) else (s, g)
  | _ => (s, g)

/-- The virtual functions of one device are numbered from zero on. -/
def eduVfRead (vfNum : BitVec 16) (s : EduPciVfState) (addr : BitVec 64) : BitVec 64 :=
  match addr with
  | regId => 0x0ED00002
  | regScratch => s.scratch.setWidth 64
  | regFactorial => s.factorialOut.setWidth 64
  | regStatus => (1 ||| (s.dmaBusy <<< 1)).setWidth 64
  | regDmaSrc => s.dmaSrc
  | regDmaDst => s.dmaDst
  | regDmaLen => s.dmaLen.setWidth 64
  | regDmaCmd => s.dmaBusy.setWidth 64
  | regVfId => vfNum.setWidth 64 + 1
  | _ => 0xFFFFFFFF

def eduVfWrite (dma : Dma DmaDescriptor) (s : EduPciVfState) (g : Guest DmaDescriptor)
    (addr val : BitVec 64) : EduPciVfState × Guest DmaDescriptor :=
  match addr with
  | regScratch => ({ s with scratch := val.setWidth 32 }, g)
  | regFactorial => ({ s with factorialOut := factorial (val.setWidth 32) }, g)
  | regDmaSrc => ({ s with dmaSrc := val }, g)
  | regDmaDst => ({ s with dmaDst := val }, g)
  | regDmaLen => ({ s with dmaLen := val.setWidth 32 }, g)
  | regDmaCmd =>
      if val = 1 ∧ s.dmaBusy = 0 then
        let s := { s with dmaBusy := 1 }
        let g := dmaCopy dma g s.dmaSrc s.dmaDst s.dmaLen
        ({ s with dmaBusy := 0 }, g)
      else (s, g)
  | _ => (s, g)

end EduDevices
