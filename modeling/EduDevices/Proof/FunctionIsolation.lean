import EduDevices.Construction.Sriov
import EduDevices.Library.Areas
import EduDevices.Proof.EngineFootprint
import EduDevices.Proof.PfOperations

namespace EduDevices

open Execution (run)

/-- Whenever the host starts a copy, the registers hold a range of the area and one that is the own
part of the function. -/
def Prepared (territory : Territory) : DmaRegisters → List HostWrite → Prop
  | _, [] => True
  | registers, write :: rest =>
      (write.addr = regDmaCmd →
        (∀ address, Within registers.src (cappedLen registers.len).toNat address →
          territory.area address) ∧
        ∀ address, Within registers.dst (cappedLen registers.len).toNat address →
          territory.own address) ∧
      Prepared territory (registers.write write) rest

section Virtual

variable {territory : Territory}

theorem holds_nil : territory.Holds ([] : List (Event DmaDescriptor)) := by
  constructor
  · rintro address ⟨range, member, -⟩
    exact absurd member List.not_mem_nil
  · rintro address ⟨range, member, -⟩
    exact absurd member List.not_mem_nil

/-- A copy stays in the territory that has both its ranges. -/
theorem holds_copy {src dst : Address} {data : List Byte} {read written : MemTxResult}
    (source : ∀ address, Within src data.length address → territory.area address)
    (target : ∀ address, Within dst data.length address → territory.own address) :
    territory.Holds
      ([.dmaRead src data read, .dmaWrite dst data written] : List (Event DmaDescriptor)) := by
  constructor
  · rintro address ⟨range, member, inside⟩
    cases read with
    | ok =>
        obtain rfl : range = (src, data.length) := by
          simpa [readRanges, Event.readRange] using member
        exact source address inside
    | _ => simp [readRanges, Event.readRange] at member
  · rintro address ⟨range, member, inside⟩
    obtain rfl : (dst, data.length) = range := by
      simpa [writeRanges, Event.writeRange] using member
    exact target address inside

/-- A write to a virtual function copies or does nothing. -/
theorem vfAccess_trace (dma : Dma DmaDescriptor) (s : EduPciVfState) (g : Guest DmaDescriptor)
    (write : HostWrite) : (vfAccess dma (s, g) write).2.trace = g.trace ∨
      write.addr = regDmaCmd ∧ (vfAccess dma (s, g) write).2 =
        dmaCopy dma (g.rewrite write.host) s.dmaSrc s.dmaDst s.dmaLen := by
  obtain ⟨host, addr, val⟩ := write
  by_cases command : addr = regDmaCmd
  · subst command
    have handled := eduVfWrite_command dma s (g.rewrite host) (val.setWidth 64)
    have guest : (vfAccess dma (s, g) ⟨host, regDmaCmd, val⟩).2 = _ := congrArg Prod.snd handled
    rw [guest]
    dsimp only
    split
    · exact .inr ⟨rfl, rfl⟩
    · exact .inl rfl
  · refine .inl ?_
    unfold vfAccess eduVfWrite
    dsimp only
    split <;> first | contradiction | rfl

/-- What a prepared host makes a virtual function do stays in the territory. -/
theorem holds_virtual (dma : Dma DmaDescriptor) (number : Nat) {s : EduPciVfState}
    {g : Guest DmaDescriptor} {writes : List HostWrite}
    (prepared : Prepared territory s.dmaRegisters writes) :
    ∃ final events, run ((BusFunction.virtual number).access dma) (s, g) writes = .ok final ∧
      final.2.trace = g.trace ++ events ∧ territory.Holds events := by
  induction writes generalizing s g with
  | nil => exact ⟨(s, g), [], rfl, (List.append_nil _).symm, holds_nil⟩
  | cons write rest ih =>
      obtain ⟨here, later⟩ := prepared
      let next := vfAccess dma (s, g) write
      have onward : Prepared territory next.1.dmaRegisters rest := by
        rw [show next.1.dmaRegisters = _ from vfAccess_registers dma (s, g) write]
        exact later
      obtain ⟨final, events, finished, grown, holds⟩ := @ih next.1 next.2 onward
      rcases vfAccess_trace dma s g write with silent | ⟨starts, copies⟩
      · exact ⟨final, events, finished, by rw [grown, silent], holds⟩
      · obtain ⟨data, read, written, length, copied⟩ :=
          dmaCopy_trace dma (g.rewrite write.host) s.dmaSrc s.dmaDst s.dmaLen
        obtain ⟨source, target⟩ := here starts
        have first : territory.Holds ([.dmaRead s.dmaSrc data read,
            .dmaWrite s.dmaDst data written] : List (Event DmaDescriptor)) := by
          apply holds_copy
          · rw [length]
            exact source
          · rw [length]
            exact target
        refine ⟨final, _ ++ events, finished, ?_, Territory.holds_append.mpr ⟨first, holds⟩⟩
        rw [grown, copies, copied, List.append_assoc]
        rfl

end Virtual

section Framed

variable {pattern : DmaPattern} {stack : List (Event DmaDescriptor) → Nat → Byte}
  (settled : pattern.Settled stack 4096)

include settled

theorem eduVfWrite_framed (s : EduPciVfState) (addr val : BitVec 64) :
    Framed pattern fun g => .ok (eduVfWrite (pattern.dma stack) s g addr val) := by
  unfold eduVfWrite
  split <;> try exact .pure _
  simp only [apply_ite Except.ok]
  refine .conditional _ (fun _ => ?_) fun _ => .pure s
  exact (dmaCopy_framed settled s.dmaSrc s.dmaDst s.dmaLen).bind fun _ => .pure _

/-- A write to any function is tame when its host keeps to the territory. -/
theorem access_tame {territory : Territory} (f : BusFunction) (write : f.Write)
    (keeps : territory.Keeps (f.host write)) :
    Tame territory (f.access (pattern.dma stack)) write := by
  cases f with
  | physical =>
      obtain ⟨bar, host, addr, val⟩ := write
      refine Framed.tame (fun s => pfAccess_framed settled s bar addr val) keeps fun s g => ?_
      cases bar <;> rfl
  | virtual number =>
      obtain ⟨host, addr, val⟩ := write
      exact Framed.tame (fun s => eduVfWrite_framed settled s addr (val.setWidth 64)) keeps
        fun s g => rfl

end Framed

/-- The functions share the memory, and each of them has a territory in which the others change
nothing. The physical function and its host keep to theirs, and the hosts of the virtual functions
prepare their copies so. Then in any order of all the writes, each function ends in the state in
which it ends alone, with the same transfers and interrupts and the same bytes in its area. -/
theorem functions_isolated (pattern : BusFunction → DmaPattern)
    (stack : List (Event DmaDescriptor) → Nat → Byte)
    (settled : ∀ f, (pattern f).Settled stack 4096) (territory : BusFunction → Territory)
    (apart : ∀ f other, f ≠ other → ∀ address, (territory f).own address →
      ¬ (territory other).area address)
    (states : ∀ f : BusFunction, f.State) (g : Guest DmaDescriptor)
    (schedule : List (Σ f : BusFunction, f.Write))
    (hosts : ∀ access ∈ schedule, (territory access.1).Keeps (access.1.host access.2))
    (physical : ∃ alone events, run (pfAccess ((pattern .physical).dma stack))
        (states .physical, g) (inputsOf .physical schedule) = .ok alone ∧
      alone.2.trace = g.trace ++ events ∧ (territory .physical).Holds events)
    (virtual : ∀ number, Prepared (territory (.virtual number))
      (states (.virtual number)).dmaRegisters (inputsOf (.virtual number) schedule)) :
    ∃ (final : ∀ f : BusFunction, f.State) (memory : Memory)
      (labelled : List (BusFunction × Event DmaDescriptor)),
      run (sriovAccess fun f => (pattern f).dma stack) (states, g) schedule =
        .ok (final, ⟨memory, g.trace ++ labelled.map Prod.snd⟩) ∧
      (∀ f, ∃ alone : Guest DmaDescriptor,
        run (f.access ((pattern f).dma stack)) (states f, g) (inputsOf f schedule) =
          .ok (final f, alone) ∧
        alone.trace = g.trace ++ eventsOf f labelled ∧
        AgreeIn (territory f).area alone.memory memory) ∧
      ∀ address, (∀ f, ¬ (territory f).own address) → memory address = g.memory address := by
  have ran (f : BusFunction) : ∃ alone events,
      run (f.access ((pattern f).dma stack)) (states f, g) (inputsOf f schedule) = .ok alone ∧
        alone.2.trace = g.trace ++ events ∧ (territory f).Holds events := by
    cases f with
    | physical => exact physical
    | virtual number => exact holds_virtual _ number (virtual number)
  choose alone events finished grown holds using ran
  have lives (f : BusFunction) : Lives (territory f) (f.access ((pattern f).dma stack)) (states f)
      g.memory (inputsOf f schedule) (alone f).1 (events f) (alone f).2.memory := by
    have tame : ∀ write ∈ inputsOf f schedule,
        Tame (territory f) (f.access ((pattern f).dma stack)) write := fun write member =>
      access_tame (settled f) f write (hosts ⟨f, write⟩ (mem_inputsOf member))
    obtain ⟨recorded, longer, lived⟩ := lives_of_run tame (finished f)
    obtain rfl : recorded = events f := List.append_cancel_left (longer.symm.trans (grown f))
    exact lived (holds f)
  obtain ⟨memory, labelled, merged, each, agree, outside⟩ :=
    sharedStep_run apart lives g fun f _ _ => rfl
  refine ⟨fun f => (alone f).1, memory, labelled, merged, ?_, outside⟩
  intro f
  refine ⟨(alone f).2, finished f, ?_, agree f⟩
  rw [grown f, each f]

/-- The addresses go to the functions in pieces of 64 KiB, the first two to the physical one. -/
def ownerOf (address : Address) : BusFunction :=
  let piece := address.toNat / 65536
  if piece < 2 then .physical else .virtual (piece - 2)

def ownPieces (f : BusFunction) : Territory where
  area address := ownerOf address = f
  own address := ownerOf address = f

theorem ownerOf_within {base address : Address} {length : Nat}
    (fits : base.toNat % 65536 + length ≤ 65536) (inside : Within base length address) :
    ownerOf address = ownerOf base := by
  have bounded := base.isLt
  have between := (within_iff_toNat (by omega) address).mp inside
  have piece : address.toNat / 65536 = base.toNat / 65536 := by omega
  rw [ownerOf, ownerOf, piece]

/-- Three functions copy in turns, and one of them copies nothing. -/
def copyingInTurns : List (Σ f : BusFunction, f.Write) :=
  [⟨.virtual 0, ⟨id, regDmaSrc, 0x20000⟩⟩, ⟨.physical, ⟨.bar0, ⟨id, regDmaSrc, 0x10000⟩⟩⟩,
    ⟨.virtual 0, ⟨id, regDmaDst, 0x21000⟩⟩, ⟨.virtual 1, ⟨id, regDmaDst, 0x31000⟩⟩,
    ⟨.physical, ⟨.bar0, ⟨id, regDmaDst, 0x11000⟩⟩⟩, ⟨.virtual 0, ⟨id, regDmaLen, 8192⟩⟩,
    ⟨.virtual 0, ⟨id, regDmaCmd, 1⟩⟩, ⟨.virtual 1, ⟨id, regDmaSrc, 0x30000⟩⟩,
    ⟨.physical, ⟨.bar0, ⟨id, regDmaLen, 4⟩⟩⟩, ⟨.virtual 1, ⟨id, regDmaCmd, 1⟩⟩,
    ⟨.physical, ⟨.bar0, ⟨id, regDmaCmd, 1⟩⟩⟩]

def zeroedFunctions : (f : BusFunction) → f.State
  | .physical => EduPciState.zeroed ⟨false⟩
  | .virtual _ => ⟨0, 0, 0, 0, 0, 0⟩

theorem functions_isolated_inTurns :
    let stack : List (Event DmaDescriptor) → Nat → Byte := fun _ _ => 0
    let g : Guest DmaDescriptor := ⟨fun address => address.setWidth 8, []⟩
    ∃ (final : ∀ f : BusFunction, f.State) (memory : Memory)
      (labelled : List (BusFunction × Event DmaDescriptor)),
      run (sriovAccess fun _ => DmaPattern.reliable.dma stack) (zeroedFunctions, g)
          copyingInTurns = .ok (final, ⟨memory, g.trace ++ labelled.map Prod.snd⟩) ∧
      (∀ f, ∃ alone : Guest DmaDescriptor,
        run (f.access (DmaPattern.reliable.dma stack)) (zeroedFunctions f, g)
          (inputsOf f copyingInTurns) = .ok (final f, alone) ∧
        alone.trace = g.trace ++ eventsOf f labelled ∧
        AgreeIn (ownPieces f).area alone.memory memory) ∧
      ∀ address, (∀ f, ¬ (ownPieces f).own address) → memory address = g.memory address := by
  intro stack g
  refine functions_isolated (fun _ => .reliable) stack (fun _ _ _ _ _ fault => nomatch fault)
    ownPieces ?_ zeroedFunctions g copyingInTurns ?_ ?_ ?_
  · intro f other different address own inside
    exact different (own.symm.trans inside)
  · intro access member
    have silent : access.1.host access.2 = id := by
      simp only [copyingInTurns, List.mem_cons, List.not_mem_nil, or_false] at member
      rcases member with rfl | rfl | rfl | rfl | rfl | rfl | rfl | rfl | rfl | rfl | rfl <;> rfl
    rw [silent]
    exact ⟨fun _ _ agree => agree, fun _ _ _ => rfl⟩
  · let moved : List Byte := g.memory.read 0x10000 4
    refine ⟨_, [.dmaRead 0x10000 moved .ok, .dmaWrite 0x11000 moved .ok], rfl, rfl, ?_⟩
    apply holds_copy
    · exact fun address inside => ownerOf_within (by decide) inside
    · exact fun address inside => ownerOf_within (by decide) inside
  · intro number
    match number with
    | 0 =>
        refine ⟨nofun, nofun, nofun, ?_, trivial⟩
        intro _
        exact ⟨fun address inside => ownerOf_within (by decide) inside,
          fun address inside => ownerOf_within (by decide) inside⟩
    | 1 =>
        refine ⟨nofun, nofun, ?_, trivial⟩
        intro _
        exact ⟨fun address inside => ownerOf_within (by decide) inside,
          fun address inside => ownerOf_within (by decide) inside⟩
    | more + 2 => trivial

end EduDevices
