import Mathlib.Data.Nat.Factorial.Basic
import EduDevices.Construction.DmaDriver
import EduDevices.Library.Refinement
import EduDevices.Proof.CopyPaths

namespace EduDevices

open Refinement

/-- The induction is on the turns of the loop that have been taken. -/
theorem fold_factorial (n : BitVec 32) {turns : Nat} (few : turns ≤ 11) :
    Nat.fold turns (fun i _ result =>
      if BitVec.ofNat 32 (2 + i) ≤ n then result * BitVec.ofNat 32 (2 + i) else result) 1 =
        BitVec.ofNat 32 (min n.toNat (turns + 1)).factorial := by
  induction turns with
  | zero =>
      have least : (min n.toNat 1).factorial = 1 := by
        rcases Nat.le_one_iff_eq_zero_or_eq_one.mp (Nat.min_le_right n.toNat 1) with zero | one
        · rw [zero, Nat.factorial_zero]
        · rw [one, Nat.factorial_one]
      rw [Nat.fold_zero, least]
      rfl
  | succ turns ih =>
      have reaches : BitVec.ofNat 32 (2 + turns) ≤ n ↔ turns + 2 ≤ n.toNat := by
        rw [BitVec.le_def, BitVec.toNat_ofNat]
        omega
      rw [Nat.fold_succ, ih (by omega)]
      by_cases more : turns + 2 ≤ n.toNat
      · rw [if_pos (reaches.mpr more), Nat.min_eq_right (by omega), Nat.min_eq_right more,
          Nat.factorial_succ (turns + 1), ← BitVec.ofNat_mul, Nat.mul_comm, Nat.add_comm 2 turns]
      · rw [if_neg fun enough => more (reaches.mp enough), Nat.min_eq_left (by omega),
          Nat.min_eq_left (by omega)]

/-- The loop computes the factorials that fit in the register, and stays at the largest of them. -/
theorem factorial_eq (n : BitVec 32) :
    factorial n = BitVec.ofNat 32 (min n.toNat 12).factorial :=
  fold_factorial n (le_refl 11)

/-- What the window of registers is for its host: a word that it keeps, factorials, an interrupt and
a copy of a page. -/
def pciService (scratch : BitVec 32) : PciCall → PciReply × BitVec 32
  | .writeScratch val => (.written, val)
  | .readScratch => (.value scratch, scratch)
  | .factorial n => (.value (BitVec.ofNat 32 (min n.toNat 12).factorial), scratch)
  | .manualInterrupt vector => (.interrupt (vector = 0), scratch)
  | .doDma data => (.report ⟨true, true, data.take 4096⟩, scratch)

/-- The device keeps the word, no copy is under way, and the host has seen all its interrupts. -/
structure Serviced (dev : EduPciDevice) (scratch : BitVec 32) : Prop where
  scratch : dev.device.scratch = scratch
  idle : dev.device.dmaBusy = 0
  notifies : dev.device.parentObj.msixEnabled = true
  vector : dev.events.vector = 0
  drained : dev.events.Drained dev.guest

section Copy

variable {dma : Dma DmaDescriptor} {g : Guest DmaDescriptor} {src dst : Address} {len : BitVec 32}

/-- A copy between mapped buffers is one read and one write. -/
theorem dmaCopy_eq (fits : len.toNat ≤ 4096) (gives : dma.readFault g.trace src len.toNat = none)
    (takes : dma.writeFault (g.trace ++ [.dmaRead src (g.memory.read src len.toNat) .ok]) dst
      len.toNat = none) :
    dmaCopy dma g src dst len = ⟨g.memory.copy src dst len.toNat,
      g.trace ++ [.dmaRead src (g.memory.read src len.toNat) .ok] ++
        [.dmaWrite dst (g.memory.read src len.toNat) .ok]⟩ := by
  have capped : (cappedLen len).toNat = len.toNat := by
    rw [toNat_cappedLen, Nat.min_eq_left fits]
  have read := @pciDmaRead_of_ok _ dma g src (stackBuffer dma g len.toNat)
    (by rwa [length_stackBuffer])
  rw [length_stackBuffer] at read
  unfold dmaCopy
  dsimp only
  rw [capped, read, pciDmaWrite_of_ok (by rwa [Memory.length_read])]
  rfl

end Copy

namespace EduPciDevice

/-- The device when the data is in place and the registers are set up for it. -/
def programmed (dev : EduPciDevice) (data : List Byte) : EduPciDevice :=
  { (dev.memcpy srcIova data).memcpy dstIova (List.replicate pageSize 0) with
    device := { dev.device with
      dmaSrc := srcIova
      dmaDst := dstIova
      dmaLen := BitVec.ofNat 32 data.length } }

/-- What the host finds when it has waited for its transfer. -/
def collected (dev : EduPciDevice) (length : Nat) : DmaReport × EduPciDevice :=
  let (raised, dev) := dev.waitInterrupt
  let src := dev.guest.memory.read srcIova length
  let dst := dev.guest.memory.read dstIova length
  (⟨raised, src = dst, dst⟩, dev)

theorem doDma_eq (dma : Dma DmaDescriptor) (dev : EduPciDevice) (data : List Byte) :
    doDma dma dev data = collected (writeReg dma (programmed dev (data.take pageSize)) regDmaCmd 1)
      (data.take pageSize).length := by
  have length : ((BitVec.ofNat 32 (data.take pageSize).length).setWidth 64).setWidth 32 =
      BitVec.ofNat 32 (data.take pageSize).length := by simp
  rw [programmed, ← length]
  rfl

section Transfer

variable {dma : Dma DmaDescriptor} {dev : EduPciDevice} {scratch : BitVec 32} {data : List Byte}

/-- The data reaches its page. -/
theorem read_programmed (fits : data.length ≤ 4096) :
    (programmed dev data).guest.memory.read srcIova data.length = data := by
  have apart : Apart dstIova (List.replicate pageSize (0 : Byte)).length srcIova data.length := by
    rw [List.length_replicate]
    apply apart_of_order (by decide) (by simp; omega)
    right
    simp
    omega
  show ((dev.guest.memory.write srcIova data).write dstIova (List.replicate pageSize 0)).read
    srcIova data.length = data
  rw [Memory.read_write_apart _ _ _ _ _ apart, Memory.read_write_same _ _ _ (by omega)]

/-- A transfer of at most a page arrives. -/
theorem arrives (serviced : Serviced dev scratch) (src : Mapped dma srcIova pageSize)
    (dst : Mapped dma dstIova pageSize) (fits : data.length ≤ 4096) :
    ∃ next, collected (writeReg dma (programmed dev data) regDmaCmd 1) data.length =
        (⟨true, true, data⟩, next) ∧ Serviced next scratch := by
  let s := (programmed dev data).device
  let g := (programmed dev data).guest
  have length : s.dmaLen.toNat = data.length := by
    show (BitVec.ofNat 32 data.length).toNat = data.length
    rw [BitVec.toNat_ofNat]
    omega
  have held : g.memory.read srcIova data.length = data := read_programmed fits
  let guest : Guest DmaDescriptor := ⟨g.memory.copy srcIova dstIova data.length,
    g.trace ++ [.dmaRead srcIova data .ok] ++ [.dmaWrite dstIova data .ok] ++ [.msixNotify 0]⟩
  have copied : dmaCopy dma g s.dmaSrc s.dmaDst s.dmaLen = ⟨g.memory.copy srcIova dstIova data.length,
      g.trace ++ [.dmaRead srcIova data .ok] ++ [.dmaWrite dstIova data .ok]⟩ := by
    have copy := @dmaCopy_eq dma g srcIova dstIova s.dmaLen (by rwa [length])
      (by rw [length]; exact src.reads _ _ _ ⟨le_refl _, by simpa using fits⟩)
      (by rw [length]; exact dst.writes _ _ _ ⟨le_refl _, by simpa using fits⟩)
    rwa [length, held] at copy
  have ran : writeReg dma (programmed dev data) regDmaCmd 1 = { programmed dev data with guest } := by
    have started : s.dmaBusy = 0 := serviced.idle
    have notifies : s.parentObj.msixEnabled = true := serviced.notifies
    have written : eduPciWrite dma s g regDmaCmd 1 = (s, guest) := by
      rw [eduPciWrite_command, if_pos ⟨rfl, started⟩, if_pos notifies, copied]
      rfl
    show (fun out : EduPciState × Guest DmaDescriptor =>
      ({ programmed dev data with device := out.1, guest := out.2 } : EduPciDevice))
        (eduPciWrite dma s g regDmaCmd 1) = _
    rw [written]
  have raised : (programmed dev data).events.wait guest =
      (true, { dev.events with seen := guest.trace.length }) := by
    have drained : (programmed dev data).events.Drained g := serviced.drained
    have grown : guest.trace = g.trace ++
        [.dmaRead srcIova data .ok, .dmaWrite dstIova data .ok, .msixNotify 0] := by
      simp [guest]
    refine drained.arrives grown ?_
    show Event.msixNotify dev.events.vector ∈ _
    rw [serviced.vector]
    simp
  have sent : guest.memory.read srcIova data.length = data := by
    refine Eq.trans (Memory.read_congr fun index inside => ?_) held
    apply Memory.copy_outside
    have apart : Apart srcIova data.length dstIova data.length := by
      apply apart_of_order (by simp; omega) (by simp; omega)
      left
      simp
      omega
    exact apart _ (within_add srcIova inside)
  have received : guest.memory.read dstIova data.length = data :=
    (g.memory.read_copy srcIova dstIova data.length (by omega)).trans held
  refine ⟨⟨s, guest, { dev.events with seen := guest.trace.length }⟩, ?_, serviced.scratch,
    serviced.idle, serviced.notifies, serviced.vector, EventFd.drained_read _ _⟩
  rw [ran, collected, VfioDevice.waitInterrupt_of_wait raised]
  dsimp only
  rw [sent, received, decide_eq_true rfl]

end Transfer

end EduPciDevice

/-- An interrupt of another vector, or of none, is not what the host waits for. -/
theorem Serviced.manualInterrupt {dma : Dma DmaDescriptor} {dev : EduPciDevice}
    {scratch : BitVec 32} (serviced : Serviced dev scratch) (vector : BitVec 32) :
    ∃ next, EduPciDevice.manualInterrupt dma dev vector = (decide (vector = 0), next) ∧
      Serviced next scratch := by
  obtain ⟨kept, idle, notifies, waited, drained⟩ := serviced
  let val := vector.setWidth 64
  have handled : eduPciWrite dma dev.device dev.guest regIrqRaise val =
      if val < eduMsixVectors then (dev.device, msixNotify dev.guest val.toNat)
      else (dev.device, dev.guest) := by
    have handler : eduPciWrite dma dev.device dev.guest regIrqRaise val =
        if dev.device.parentObj.msixEnabled ∧ val < eduMsixVectors then
          (dev.device, msixNotify dev.guest val.toNat)
        else if ¬ dev.device.parentObj.msixEnabled then (dev.device, dev.guest.log (.intx true))
        else (dev.device, dev.guest) := rfl
    rw [handler, notifies]
    simp
  have number : val.toNat = vector.toNat := by
    rw [BitVec.toNat_setWidth]
    omega
  have write (guest : Guest DmaDescriptor)
      (written : eduPciWrite dma dev.device dev.guest regIrqRaise val = (dev.device, guest)) :
      EduPciDevice.writeReg dma dev regIrqRaise vector = { dev with guest } := by
    show (fun out : EduPciState × Guest DmaDescriptor =>
      ({ dev with device := out.1, guest := out.2 } : EduPciDevice))
        (eduPciWrite dma dev.device dev.guest regIrqRaise val) = _
    rw [written]
  by_cases asked : vector = 0
  · have zero : val = 0 := by simp [val, asked]
    have written := write (msixNotify dev.guest 0) (by rw [handled, if_pos (by rw [zero]; decide), zero]; rfl)
    have raised : ({ dev with guest := msixNotify dev.guest 0 } : EduPciDevice).events.wait
        (msixNotify dev.guest 0) =
          (true, ⟨dev.events.vector, (msixNotify dev.guest 0).trace.length⟩) :=
      drained.arrives rfl (by rw [waited]; exact List.mem_singleton_self _)
    refine ⟨⟨dev.device, msixNotify dev.guest 0, ⟨dev.events.vector,
      (msixNotify dev.guest 0).trace.length⟩⟩, ?_, kept, idle, notifies, waited,
      EventFd.drained_read _ _⟩
    rw [EduPciDevice.manualInterrupt, written, VfioDevice.waitInterrupt_of_wait raised,
      decide_eq_true asked]
  · have quiet : ∃ guest later, eduPciWrite dma dev.device dev.guest regIrqRaise val =
        (dev.device, guest) ∧ guest.trace = dev.guest.trace ++ later ∧
          ∀ event ∈ later, event.notifies dev.events.vector = false := by
      rw [handled]
      split
      · refine ⟨_, [.msixNotify val.toNat], rfl, rfl, ?_⟩
        have other : val.toNat ≠ 0 := by
          rw [number]
          exact fun zero => asked (BitVec.eq_of_toNat_eq zero)
        simp [Event.notifies, waited, other]
      · exact ⟨_, [], rfl, (List.append_nil _).symm, by simp⟩
    obtain ⟨guest, later, written, grown, silent⟩ := quiet
    have missed : ({ dev with guest } : EduPciDevice).events.wait guest = (false, dev.events) :=
      drained.times_out grown silent
    refine ⟨⟨dev.device, guest, dev.events⟩, ?_, kept, idle, notifies, waited,
      drained.silent grown silent⟩
    rw [EduPciDevice.manualInterrupt, write guest written, VfioDevice.waitInterrupt_of_wait missed,
      decide_eq_false asked]

/-- The driver with its device is the service. -/
theorem dmaDriver_refines {dma : Dma DmaDescriptor} (src : Mapped dma EduPciDevice.srcIova pageSize)
    (dst : Mapped dma EduPciDevice.dstIova pageSize) :
    Refines Serviced (fun _ _ => True) (EduPciDevice.call dma) pciService := by
  intro dev scratch call serviced _
  obtain ⟨kept, idle, notifies, vector, drained⟩ := serviced
  cases call with
  | writeScratch val =>
      refine ⟨_, rfl, ?_, idle, notifies, vector, drained⟩
      show (val.setWidth 64).setWidth 32 = val
      simp
  | readScratch =>
      have read : EduPciDevice.readReg dev regScratch = dev.device.scratch := by
        show (dev.device.scratch.setWidth 64).setWidth 32 = _
        simp
      refine ⟨dev, ?_, kept, idle, notifies, vector, drained⟩
      rw [EduPciDevice.call, read, kept]
      rfl
  | factorial n =>
      have read : EduPciDevice.readReg (EduPciDevice.writeReg dma dev regFactorial n) regFactorial =
          BitVec.ofNat 32 (min n.toNat 12).factorial := by
        show ((factorial ((n.setWidth 64).setWidth 32)).setWidth 64).setWidth 32 = _
        rw [← factorial_eq]
        simp
      refine ⟨EduPciDevice.writeReg dma dev regFactorial n, ?_, kept, idle, notifies, vector, drained⟩
      show Except.ok (PciReply.value _, _) = _
      rw [read]
      rfl
  | manualInterrupt raise =>
      obtain ⟨next, waited, still⟩ := Serviced.manualInterrupt
        ⟨kept, idle, notifies, vector, drained⟩ raise
      refine ⟨next, ?_, still⟩
      rw [EduPciDevice.call, waited]
      rfl
  | doDma data =>
      obtain ⟨next, arrived, still⟩ := EduPciDevice.arrives
        ⟨kept, idle, notifies, vector, drained⟩ src dst (List.length_take_le 4096 data)
      refine ⟨next, ?_, still⟩
      rw [EduPciDevice.call, EduPciDevice.doDma_eq, arrived]
      rfl

/-- A host that makes any calls to the window of registers gets the answers of the service. -/
theorem dmaDriver_serves (dma : Dma DmaDescriptor) (src : Mapped dma EduPciDevice.srcIova pageSize)
    (dst : Mapped dma EduPciDevice.dstIova pageSize) (dev : EduPciDevice)
    (idle : dev.device.dmaBusy = 0) (notifies : dev.device.parentObj.msixEnabled = true)
    (vector : dev.events.vector = 0) (drained : dev.events.Drained dev.guest) (calls : List PciCall) :
    ∃ final, serve (EduPciDevice.call dma) dev calls =
        .ok ((perform pciService dev.device.scratch calls).1, final) ∧
      Serviced final (perform pciService dev.device.scratch calls).2 :=
  (dmaDriver_refines src dst).serve ⟨rfl, idle, notifies, vector, drained⟩
    (Guarded.of_forall (fun _ _ _ => trivial) _)

/-- More than a page, a vector that nobody waits for and a factorial that does not fit. -/
theorem dmaDriver_serves_edges :
    let dma : Dma DmaDescriptor := DmaPattern.reliable.dma fun _ _ => 0
    let dev : EduPciDevice := ⟨.zeroed ⟨true⟩, ⟨fun _ => 0, []⟩, ⟨0, 0⟩⟩
    let calls : List PciCall := [.writeScratch 0xDEADBEEF, .doDma (List.replicate 5000 7),
      .manualInterrupt 1, .factorial 13, .manualInterrupt 0, .doDma [], .readScratch]
    ∃ final, serve (EduPciDevice.call dma) dev calls =
        .ok ((perform pciService dev.device.scratch calls).1, final) ∧
      Serviced final (perform pciService dev.device.scratch calls).2 := by
  intro dma dev calls
  exact dmaDriver_serves dma (mapped_reliable _ _ _) (mapped_reliable _ _ _) dev rfl rfl rfl
    (EventFd.drained_read 0 dev.guest) calls

end EduDevices
