import EduDevices.Proof.CryptoKey
import EduDevices.Proof.RegisterWindows
import EduDevices.Proof.RingStatus

namespace EduDevices

open Execution

/-- The bus gives the bytes at the source and then takes them at the destination. -/
structure Transfers (dma : Dma DmaDescriptor) (g : Guest DmaDescriptor) (src dst : Address)
    (length : Nat) : Prop where
  gives : dma.readFault g.trace src length = none
  takes : dma.writeFault (g.trace ++ [.dmaRead src (g.memory.read src length) .ok]) dst length = none

/-- The destination holds what the source held before, and no byte changed outside the destination
but those set aside. -/
structure Copied (aside : Address → Prop) (before after : Memory) (src dst : Address)
    (length : Nat) : Prop where
  data : after.read dst length = before.read src length
  rest : ∀ address, ¬ Within dst length address → ¬ aside address → after address = before address

theorem copied_copy (memory : Memory) (src dst : Address) (length : Nat) (fits : length ≤ 2 ^ 64) :
    Copied (fun _ => False) memory (memory.copy src dst length) src dst length where
  data := memory.read_copy src dst length fits
  rest := fun address outside _ => memory.copy_outside src dst length address outside

theorem dmaCopy_memory {dma : Dma DmaDescriptor} {g : Guest DmaDescriptor} {src dst : Address}
    {dmaLen : BitVec 32} (transfers : Transfers dma g src dst (min dmaLen.toNat 4096)) :
    (dmaCopy dma g src dst dmaLen).memory = g.memory.copy src dst (min dmaLen.toNat 4096) := by
  obtain ⟨gives, takes⟩ := transfers
  have read := @pciDmaRead_of_ok _ dma g src (stackBuffer dma g (cappedLen dmaLen).toNat)
    (by rwa [length_stackBuffer, toNat_cappedLen])
  rw [length_stackBuffer, toNat_cappedLen] at read
  unfold dmaCopy
  dsimp only
  rw [toNat_cappedLen, read]
  rw [pciDmaWrite_of_ok (by rwa [Memory.length_read])]
  rfl

/-- A field that takes the words written to one offset holds the last of them. -/
theorem foldl_lastWord {State Value : Type} (step : State → HostWrite → State)
    (field : State → Value) (value : BitVec 32 → Value) {addr : BitVec 64}
    (takes : ∀ state write, field (step state write) =
      if write.addr = addr then value write.val else field state)
    (writes : List HostWrite) (state : State) {val : BitVec 32}
    (last : lastWord addr writes = some val) : field (writes.foldl step state) = value val := by
  induction writes using List.reverseRecOn with
  | nil => cases last
  | append_singleton writes write ih =>
      rw [lastWord_snoc] at last
      rw [List.foldl_append, List.foldl_cons, List.foldl_nil, takes]
      split at last
      · next hit =>
          rw [if_pos hit, Option.some.inj last]
      · next other =>
          rw [if_neg other]
          exact ih last

/-- The last words that a program writes to the registers of a copy. Any other writes may stand among
them, in any order. -/
structure DmaProgram (src dst len : BitVec 32) (program : List HostWrite) : Prop where
  source : lastWord regDmaSrc program = some src
  destination : lastWord regDmaDst program = some dst
  length : lastWord regDmaLen program = some len

/-- The registers of a copy, which both functions have. -/
structure DmaRegisters where
  src : Address
  dst : Address
  len : BitVec 32
  busy : BitVec 32

/-- A write reaches these registers at their own offsets only. -/
def DmaRegisters.write (registers : DmaRegisters) (write : HostWrite) : DmaRegisters where
  src := if write.addr = regDmaSrc then write.val.setWidth 64 else registers.src
  dst := if write.addr = regDmaDst then write.val.setWidth 64 else registers.dst
  len := if write.addr = regDmaLen then write.val else registers.len
  busy := registers.busy

theorem DmaRegisters.foldl_busy (program : List HostWrite) (registers : DmaRegisters) :
    (program.foldl write registers).busy = registers.busy := by
  induction program generalizing registers with
  | nil => rfl
  | cons first rest ih => exact ih (registers.write first)

theorem DmaRegisters.foldl_write {src dst len : BitVec 32} {program : List HostWrite}
    (programs : DmaProgram src dst len program) (registers : DmaRegisters) :
    program.foldl write registers = ⟨src.setWidth 64, dst.setWidth 64, len, registers.busy⟩ := by
  obtain ⟨source, destination, length⟩ := programs
  have source := foldl_lastWord write DmaRegisters.src (fun val => val.setWidth 64)
    (fun _ _ => rfl) program registers source
  have destination := foldl_lastWord write DmaRegisters.dst (fun val => val.setWidth 64)
    (fun _ _ => rfl) program registers destination
  have length := foldl_lastWord write DmaRegisters.len id (fun _ _ => rfl) program registers length
  have still := registers.foldl_busy program
  exact congr (congr (congr (congrArg DmaRegisters.mk source) destination) length) still

/-- A function that copies when it is told to start: its accesses write the registers, and a start
moves the bytes as they say. -/
structure CopyFunction (dma : Dma DmaDescriptor) {State : Type}
    (access : State × Guest DmaDescriptor → HostWrite → State × Guest DmaDescriptor) where
  registers : State → DmaRegisters
  writes : ∀ machine write, registers (access machine write).1 = (registers machine.1).write write
  starts : ∀ machine host, (registers machine.1).busy = 0 →
    (access machine ⟨host, regDmaCmd, 1⟩).2.memory = (dmaCopy dma (machine.2.rewrite host)
      (registers machine.1).src (registers machine.1).dst (registers machine.1).len).memory

section Function

variable {dma : Dma DmaDescriptor} {State : Type}
  {access : State × Guest DmaDescriptor → HostWrite → State × Guest DmaDescriptor}

theorem CopyFunction.foldl_registers (function : CopyFunction dma access)
    (program : List HostWrite) (machine : State × Guest DmaDescriptor) :
    function.registers (program.foldl access machine).1 =
      program.foldl DmaRegisters.write (function.registers machine.1) :=
  (List.foldl_hom (fun machine => function.registers machine.1) fun machine write =>
    (function.writes machine write).symm).symm

theorem CopyFunction.foldl_busy (function : CopyFunction dma access)
    (program : List HostWrite) (machine : State × Guest DmaDescriptor) :
    (function.registers (program.foldl access machine).1).busy =
      (function.registers machine.1).busy := by
  rw [function.foldl_registers, DmaRegisters.foldl_busy]

/-- A start after a program copies as the program says. -/
theorem CopyFunction.copies (function : CopyFunction dma access) {src dst len : BitVec 32}
    {program : List HostWrite} (programs : DmaProgram src dst len program)
    (machine : State × Guest DmaDescriptor) (idle : (function.registers machine.1).busy = 0)
    (host : Memory → Memory)
    (transfers : Transfers dma ((program.foldl access machine).2.rewrite host) (src.setWidth 64)
      (dst.setWidth 64) (min len.toNat 4096)) :
    Copied (fun _ => False) (host (program.foldl access machine).2.memory)
      (access (program.foldl access machine) ⟨host, regDmaCmd, 1⟩).2.memory (src.setWidth 64)
      (dst.setWidth 64) (min len.toNat 4096) := by
  have held := (function.foldl_registers program machine).trans (DmaRegisters.foldl_write programs _)
  generalize program.foldl access machine = ready at transfers held
  have copied := function.starts ready host (by rw [held]; exact idle)
  rw [held] at copied
  rw [copied, dmaCopy_memory transfers]
  exact copied_copy _ _ _ _ ((Nat.min_le_right _ _).trans (by decide))

end Function

section Functions

variable (dma : Dma DmaDescriptor)

def EduPciState.dmaRegisters (s : EduPciState) : DmaRegisters :=
  ⟨s.dmaSrc, s.dmaDst, s.dmaLen, s.dmaBusy⟩

def EduPciVfState.dmaRegisters (s : EduPciVfState) : DmaRegisters :=
  ⟨s.dmaSrc, s.dmaDst, s.dmaLen, s.dmaBusy⟩

/-- The register window of the physical function. -/
def bar0Access (machine : EduPciState × Guest DmaDescriptor) (write : HostWrite) :
    EduPciState × Guest DmaDescriptor :=
  eduPciWrite dma machine.1 (machine.2.rewrite write.host) write.addr (write.val.setWidth 64)

/-- A start finds the busy flag at zero and leaves it so. -/
theorem eduPciWrite_command (s : EduPciState) (g : Guest DmaDescriptor)
    (val : BitVec 64) :
    let moved := dmaCopy dma g s.dmaSrc s.dmaDst s.dmaLen
    eduPciWrite dma s g regDmaCmd val = (s, if val = 1 ∧ s.dmaBusy = 0 then
      (if s.parentObj.msixEnabled then msixNotify moved 0 else moved) else g) := by
  intro moved
  have handler : eduPciWrite dma s g regDmaCmd val = if val = 1 ∧ s.dmaBusy = 0 then
      (if s.parentObj.msixEnabled then ({ s with dmaBusy := 0 }, msixNotify moved 0)
        else ({ s with dmaBusy := 0 }, moved)) else (s, g) := rfl
  rw [handler]
  split
  · next started =>
      have same : { s with dmaBusy := 0 } = s := by rw [← started.2]
      rw [same]
      split <;> rfl
  · rfl

theorem eduVfWrite_command (s : EduPciVfState) (g : Guest DmaDescriptor) (val : BitVec 64) :
    eduVfWrite dma s g regDmaCmd val = (s, if val = 1 ∧ s.dmaBusy = 0 then
      dmaCopy dma g s.dmaSrc s.dmaDst s.dmaLen else g) := by
  have handler : eduVfWrite dma s g regDmaCmd val = if val = 1 ∧ s.dmaBusy = 0 then
      ({ s with dmaBusy := 0 }, dmaCopy dma g s.dmaSrc s.dmaDst s.dmaLen) else (s, g) := rfl
  rw [handler]
  split
  · next started =>
      have same : { s with dmaBusy := 0 } = s := by rw [← started.2]
      rw [same]
  · rfl

/-- Only the writes to their own offsets reach the registers of a copy; a start leaves them. -/
theorem DmaRegisters.write_cases {before after : DmaRegisters} {write : HostWrite}
    (source : write.addr = regDmaSrc → after = { before with src := write.val.setWidth 64 })
    (destination : write.addr = regDmaDst → after = { before with dst := write.val.setWidth 64 })
    (length : write.addr = regDmaLen →
      after = { before with len := (write.val.setWidth 64).setWidth 32 })
    (command : write.addr = regDmaCmd → after = before)
    (other : write.addr ≠ regDmaSrc → write.addr ≠ regDmaDst → write.addr ≠ regDmaLen →
      write.addr ≠ regDmaCmd → after = before) : after = before.write write := by
  by_cases first : write.addr = regDmaSrc
  · rw [source first, DmaRegisters.write, first]
    rfl
  by_cases second : write.addr = regDmaDst
  · rw [destination second, DmaRegisters.write, second]
    rfl
  by_cases third : write.addr = regDmaLen
  · rw [length third, setWidth_word, DmaRegisters.write, third]
    rfl
  have left : before.write write = before := by
    rw [DmaRegisters.write, if_neg first, if_neg second, if_neg third]
  rw [left]
  by_cases start : write.addr = regDmaCmd
  · exact command start
  · exact other first second third start

theorem bar0Access_registers (machine : EduPciState × Guest DmaDescriptor) (write : HostWrite) :
    (bar0Access dma machine write).1.dmaRegisters = machine.1.dmaRegisters.write write := by
  obtain ⟨s, g⟩ := machine
  obtain ⟨host, addr, val⟩ := write
  apply DmaRegisters.write_cases
  · rintro rfl
    rfl
  · rintro rfl
    rfl
  · rintro rfl
    rfl
  · rintro rfl
    exact congrArg (fun next => next.1.dmaRegisters)
      (eduPciWrite_command dma s (g.rewrite host) (val.setWidth 64))
  · intro source destination length command
    unfold bar0Access eduPciWrite
    dsimp only at source destination length command ⊢
    split <;> first | contradiction | rfl | (split_ifs <;> rfl)

theorem vfAccess_registers (machine : EduPciVfState × Guest DmaDescriptor) (write : HostWrite) :
    (vfAccess dma machine write).1.dmaRegisters = machine.1.dmaRegisters.write write := by
  obtain ⟨s, g⟩ := machine
  obtain ⟨host, addr, val⟩ := write
  apply DmaRegisters.write_cases
  · rintro rfl
    rfl
  · rintro rfl
    rfl
  · rintro rfl
    rfl
  · rintro rfl
    exact congrArg (fun next => next.1.dmaRegisters)
      (eduVfWrite_command dma s (g.rewrite host) (val.setWidth 64))
  · intro source destination length command
    unfold vfAccess eduVfWrite
    dsimp only at source destination length command ⊢
    split <;> first | contradiction | rfl

/-- Either function copies when it is told to start. -/
def pfFunction : CopyFunction dma (bar0Access dma) where
  registers := EduPciState.dmaRegisters
  writes := bar0Access_registers dma
  starts := by
    intro machine host idle
    have started : (1 : BitVec 64) = 1 ∧ machine.1.dmaBusy = 0 := ⟨rfl, idle⟩
    have command := eduPciWrite_command dma machine.1 (machine.2.rewrite host) 1
    dsimp only at command
    rw [if_pos started] at command
    have moved := congrArg (fun next => next.2.memory) command
    refine moved.trans ?_
    dsimp only
    split <;> rfl

def vfFunction : CopyFunction dma (vfAccess dma) where
  registers := EduPciVfState.dmaRegisters
  writes := vfAccess_registers dma
  starts := by
    intro machine host idle
    have started : (1 : BitVec 64) = 1 ∧ machine.1.dmaBusy = 0 := ⟨rfl, idle⟩
    have command := eduVfWrite_command dma machine.1 (machine.2.rewrite host) 1
    rw [if_pos started] at command
    exact congrArg (fun next => next.2.memory) command

theorem run_bar0Access (machine : EduPciState × Guest DmaDescriptor) (program : List HostWrite) :
    run (pfAccess dma) machine (program.map (PfWrite.mk .bar0)) =
      .ok (program.foldl (bar0Access dma) machine) := by
  have total (machine : EduPciState × Guest DmaDescriptor) (write : HostWrite) :
      pfAccess dma machine ⟨.bar0, write⟩ = .ok (bar0Access dma machine write) := rfl
  exact run_map_of_total total machine program

end Functions

/-- The flag that a start checks is zero in every state that the function reaches. -/
theorem dmaBusy_reachable {dma : Dma DmaDescriptor} {parentObj : PCIDevice}
    {g : Guest DmaDescriptor} {accesses : List PfWrite} {final : EduPciState × Guest DmaDescriptor}
    (finished : run (pfAccess dma) (EduPciState.zeroed parentObj, g) accesses = .ok final) :
    final.1.dmaBusy = 0 := by
  apply run_invariant (fun machine => machine.1.dmaBusy = 0) _ accesses rfl finished
  rintro ⟨s, guest⟩ ⟨bar, write⟩ next idle taken
  have others := pfAccess_others taken
  cases bar with
  | bar0 =>
      obtain rfl := Except.ok.inj taken
      exact (congrArg DmaRegisters.busy (bar0Access_registers dma (s, guest) write)).trans idle
  | bar4 =>
      rw [others]
      exact idle
  | bar5 =>
      rw [others]
      exact idle

theorem vfDmaBusy_reachable {dma : Dma DmaDescriptor} (g : Guest DmaDescriptor)
    (writes : List HostWrite) :
    (writes.foldl (vfAccess dma) (⟨0, 0, 0, 0, 0, 0⟩, g)).1.dmaBusy = 0 :=
  (vfFunction dma).foldl_busy writes _

/-- The doorbell submits one valid descriptor to an enabled ring. -/
structure Submitted (s : EduPciState) (memory : Memory) (tail : BitVec 32) (desc : DmaDescriptor) :
    Prop where
  enabled : s.ringEnabled ≠ 0
  sized : s.ringSize ≠ 0
  pending : s.ringHead ≠ tail % s.ringSize
  single : tail % s.ringSize = (s.ringHead + 1) % s.ringSize
  stored : DmaDescriptor.decode (memory.read (descAddr s) 32) = desc
  valid : desc.Valid

section Ring

variable {dma : Dma DmaDescriptor} {s : EduPciState} {g : Guest DmaDescriptor}
  {host : Memory → Memory} {tail : BitVec 32} {desc : DmaDescriptor}

/-- The doorbell for one descriptor is one turn of the ring. -/
theorem Submitted.executed (submitted : Submitted s (host g.memory) tail desc)
    (readable : dma.readFault g.trace (descAddr s) 32 = none) :
    ∃ final, pfAccess dma (s, g) ⟨.bar4, host, regRingTail, tail⟩ = .ok final ∧
      final.2.memory = (completed dma s (g.rewrite host) desc).memory := by
  obtain ⟨enabled, sized, pending, single, stored, valid⟩ := submitted
  have rung : (tail.setWidth 64 % s.ringSize.setWidth 64).setWidth 32 = tail % s.ringSize := by
    apply BitVec.eq_of_toNat_eq
    rw [toNat_rung, BitVec.toNat_umod]
  have start : ringStart s ⟨host, regRingTail, tail⟩ = s.withTail (tail % s.ringSize) :=
    congrArg s.withTail rung
  have doorbell : pfAccess dma (s, g) ⟨.bar4, host, regRingTail, tail⟩ =
      ringAccess dma (s, g) ⟨host, regRingTail, tail⟩ := rfl
  obtain ⟨turns, size⟩ : ∃ turns, s.ringSize.toNat = turns + 1 :=
    Nat.exists_eq_succ_of_ne_zero fun zero => sized (BitVec.eq_of_toNat_eq zero)
  have found : fetched dma (s.withTail (tail % s.ringSize)) (g.rewrite host) = some desc :=
    fetched_eq_some_iff.mpr ⟨readable, valid, stored⟩
  rw [doorbell, ringAccess_start _ _ _ _ (.inl rfl) sized, start, withTail_ringEnabled,
    if_pos enabled, withTail_ringSize, size, ringLoop, withTail_ringHead, withTail_ringTail,
    if_pos pending, eduRingProcessOne_executed found sized]
  refine ⟨_, ringLoop_level turns single.symm, ?_⟩
  rw [notified_memory]
  rfl

/-- The turn copies as the descriptor says and writes the status. -/
theorem ring_copies (submitted : Submitted s (host g.memory) tail desc)
    (readable : dma.readFault g.trace (descAddr s) 32 = none)
    (transfers : Transfers dma (handed s (g.rewrite host) desc) desc.srcAddr desc.dstAddr
      desc.len.toNat)
    (apart : Apart desc.dstAddr desc.len.toNat (descAddr s) 32) :
    ∃ final, pfAccess dma (s, g) ⟨.bar4, host, regRingTail, tail⟩ = .ok final ∧
      Copied (Within (descAddr s + 0x18) 4) (host g.memory) final.2.memory desc.srcAddr
        desc.dstAddr desc.len.toNat := by
  obtain ⟨final, taken, left⟩ := submitted.executed readable
  obtain ⟨gives, takes⟩ := transfers
  refine ⟨final, taken, ?_⟩
  rw [left]
  constructor
  · have copied := completed_copied gives takes apart
    rwa [notified_memory] at copied
  · intro address outside aside
    have kept := completed_memory dma s (g.rewrite host) desc address outside aside
    rwa [notified_memory] at kept

end Ring

/-- The three paths copy alike: what stands at the source when the command comes, cut to the size of
the buffer, stands at the destination afterwards. Only the ring writes anything else, which is the
status of its descriptor. -/
theorem copyPaths_agree (dma : Dma DmaDescriptor) (src dst len : BitVec 32) :
    let source : Address := src.setWidth 64
    let destination : Address := dst.setWidth 64
    let length := min len.toNat 4096
    (∀ (s : EduPciState) (g : Guest DmaDescriptor) (program : List HostWrite)
      (host : Memory → Memory), s.dmaBusy = 0 → DmaProgram src dst len program →
      ∃ ready, run (pfAccess dma) (s, g) (program.map (PfWrite.mk .bar0)) = .ok ready ∧
        (Transfers dma (ready.2.rewrite host) source destination length →
          ∃ final, pfAccess dma ready ⟨.bar0, host, regDmaCmd, 1⟩ = .ok final ∧
            Copied (fun _ => False) (host ready.2.memory) final.2.memory source destination
              length)) ∧
    (∀ (vf : EduPciVfState) (g : Guest DmaDescriptor) (program : List HostWrite)
      (host : Memory → Memory), vf.dmaBusy = 0 → DmaProgram src dst len program →
      let ready := program.foldl (vfAccess dma) (vf, g)
      Transfers dma (ready.2.rewrite host) source destination length →
        Copied (fun _ => False) (host ready.2.memory)
          (vfAccess dma ready ⟨host, regDmaCmd, 1⟩).2.memory source destination length) ∧
    (∀ (s : EduPciState) (g : Guest DmaDescriptor) (host : Memory → Memory) (tail : BitVec 32)
      (desc : DmaDescriptor), Submitted s (host g.memory) tail desc →
      desc.srcAddr = source → desc.dstAddr = destination → desc.length = len →
      Apart destination length (descAddr s) 32 → dma.readFault g.trace (descAddr s) 32 = none →
      Transfers dma (handed s (g.rewrite host) desc) source destination length →
      ∃ final, pfAccess dma (s, g) ⟨.bar4, host, regRingTail, tail⟩ = .ok final ∧
        Copied (Within (descAddr s + 0x18) 4) (host g.memory) final.2.memory source destination
          length) := by
  intro source destination length
  refine ⟨?_, ?_, ?_⟩
  · intro s g program host idle programs
    refine ⟨_, run_bar0Access dma (s, g) program, fun transfers => ?_⟩
    exact ⟨_, rfl, (pfFunction dma).copies programs (s, g) idle host transfers⟩
  · intro vf g program host idle programs ready transfers
    exact (vfFunction dma).copies programs (vf, g) idle host transfers
  · intro s g host tail desc submitted from_source to_destination of_length apart readable transfers
    have bytes : desc.len.toNat = length := by
      rw [DmaDescriptor.len, toNat_cappedLen, of_length]
    have copies := @ring_copies dma s g host tail desc submitted readable
    rw [from_source, to_destination, bytes] at copies
    exact copies transfers apart

/-- The ranges overlap in six of eight bytes, and the registers are written backwards with a write of
the host among them. -/
theorem copyPaths_agree_overlapping :
    let dma : Dma DmaDescriptor := DmaPattern.reliable.dma fun _ _ => 0
    let s := { EduPciState.zeroed ⟨true⟩ with ringAddr := 0x3000, ringSize := 2, ringEnabled := 1 }
    let vf : EduPciVfState := ⟨0, 0, 0, 0, 0, 0⟩
    let desc : DmaDescriptor := ⟨0x1000, 0, 0x1002, 0, 8, 1, 0, 0⟩
    let g : Guest DmaDescriptor := ⟨fun address => address.setWidth 8, []⟩
    let host : Memory → Memory := fun memory => memory.write 0x3000 desc.encode
    let program : List HostWrite := [⟨id, regDmaLen, 8⟩, ⟨id, regP2pCmd, 1⟩,
      ⟨id, regDmaDst, 0x1002⟩, ⟨id, regDmaSrc, 0x1000⟩]
    (∃ ready final, run (pfAccess dma) (s, g) (program.map (PfWrite.mk .bar0)) = .ok ready ∧
      pfAccess dma ready ⟨.bar0, host, regDmaCmd, 1⟩ = .ok final ∧
      Copied (fun _ => False) (host ready.2.memory) final.2.memory 0x1000 0x1002 8) ∧
    (let ready := program.foldl (vfAccess dma) (vf, g)
     Copied (fun _ => False) (host ready.2.memory)
       (vfAccess dma ready ⟨host, regDmaCmd, 1⟩).2.memory 0x1000 0x1002 8) ∧
    ∃ final, pfAccess dma (s, g) ⟨.bar4, host, regRingTail, 1⟩ = .ok final ∧
      Copied (Within 0x3018 4) (host g.memory) final.2.memory 0x1000 0x1002 8 := by
  intro dma s vf desc g host program
  have programs : DmaProgram 0x1000 0x1002 8 program := ⟨rfl, rfl, rfl⟩
  have stored : (host g.memory).read (descAddr s) 32 = desc.encode :=
    Memory.read_write_same g.memory 0x3000 desc.encode (by decide)
  have decoded : DmaDescriptor.decode ((host g.memory).read (descAddr s) 32) = desc := by
    rw [stored, DmaDescriptor.decode_encode]
  have submitted : Submitted s (host g.memory) 1 desc :=
    ⟨by decide, by decide, by decide, by decide, decoded, by decide⟩
  have apart : Apart 0x1002 8 (descAddr s) 32 :=
    apart_of_order (by decide) (by decide) (.inl (by decide))
  have from_source : desc.srcAddr = (0x1000 : BitVec 32).setWidth 64 := by decide
  have to_destination : desc.dstAddr = (0x1002 : BitVec 32).setWidth 64 := by decide
  obtain ⟨physical, virtual, ring⟩ := copyPaths_agree dma 0x1000 0x1002 8
  obtain ⟨ready, ran, copies⟩ := physical s g program host rfl programs
  obtain ⟨final, taken, copied⟩ := copies ⟨rfl, rfl⟩
  refine ⟨⟨ready, final, ran, taken, copied⟩, ?_, ?_⟩
  · exact virtual vf g program host rfl programs ⟨rfl, rfl⟩
  · exact ring s g host 1 desc submitted from_source to_destination rfl apart rfl ⟨rfl, rfl⟩

end EduDevices
