import EduDevices.Proof.NvmeFailure

namespace EduDevices

open Execution

section Runs

variable (Holds Other : BitVec 16 → List Byte → EduNvmeState → Guest NvmeMark → Prop)
  (dma : Dma NvmeMark)

/-- Each of the first turns of the loop starts where the property holds. -/
def EverySqTurn (sqSize : BitVec 16) : Nat → List Byte → EduNvmeState → Guest NvmeMark → Prop
  | 0, _, _, _ => True
  | turns + 1, cmd, s, g =>
      s.sqHead ≠ s.sqTail → Holds sqSize cmd s g ∧
        EverySqTurn sqSize turns (sqTurn dma sqSize cmd s g).1 (sqTurn dma sqSize cmd s g).2.1
          (sqTurn dma sqSize cmd s g).2.2

/-- Each turn that a doorbell makes starts where the property holds, also when they do not end. -/
def EveryRungTurn (machine : EduNvmeState × Guest NvmeMark) (write : HostWrite) : Prop :=
  let s := machine.1
  let g := machine.2.rewrite write.host
  ∀ turns, EverySqTurn Holds dma (((s.aqa &&& (0xFFF : BitVec 32)) + 1).setWidth 16) turns
    (stackBuffer dma g 64) { s with sqTail := write.val.setWidth 16 } g

variable {Holds Other} {dma}

theorem EverySqTurn.congr (same : ∀ sqSize cmd s g, cmd.length = 64 →
      (Holds sqSize cmd s g ↔ Other sqSize cmd s g))
    (sqSize : BitVec 16) (turns : Nat) (cmd : List Byte) (s : EduNvmeState) (g : Guest NvmeMark)
    (whole : cmd.length = 64) :
    EverySqTurn Holds dma sqSize turns cmd s g ↔ EverySqTurn Other dma sqSize turns cmd s g := by
  induction turns generalizing cmd s g with
  | zero => exact Iff.rfl
  | succ turns ih =>
      have kept : (sqTurn dma sqSize cmd s g).1.length = 64 := (pciDmaRead_length ..).trans whole
      exact forall_congr' fun _ => and_congr (same sqSize cmd s g whole) (ih _ _ _ kept)

theorem EveryRungTurn.congr (same : ∀ sqSize cmd s g, cmd.length = 64 →
      (Holds sqSize cmd s g ↔ Other sqSize cmd s g))
    (machine : EduNvmeState × Guest NvmeMark) (write : HostWrite) :
    EveryRungTurn Holds dma machine write ↔ EveryRungTurn Other dma machine write :=
  forall_congr' fun turns => EverySqTurn.congr same _ turns _ _ _ (length_stackBuffer ..)

end Runs

/-- Between the command and its completion the turn writes nothing to the guest. -/
def SendsNothing (s : EduNvmeState) (g next : Guest NvmeMark) : Prop :=
  ∃ bytes fetch cmd moved cqe posted,
    next.trace = g.trace ++ ([.dmaRead s.sqeAddr bytes fetch, .mark (.command cmd)] ++ moved ++
      [.mark (.completion s.cqeAddr cqe), .dmaWrite s.cqeAddr cqe.encode posted] ++ s.notices) ∧
    ∀ address data result, .dmaWrite address data result ∉ moved

/-- The turn neither changes the storage nor sends anything but its completion, and the command that
it executes does not depend on what the local buffer held before. -/
structure ExecutesNothing (dma : Dma NvmeMark) (sqSize : BitVec 16) (buffer : List Byte)
    (s : EduNvmeState) (g : Guest NvmeMark) : Prop where
  storage : (sqTurn dma sqSize buffer s g).2.1.storage = s.storage
  sends : SendsNothing s g (sqTurn dma sqSize buffer s g).2.2
  independent : ∀ other : List Byte, other.length = buffer.length →
    NvmeCmd.decode (sqTurn dma sqSize other s g).1 = NvmeCmd.decode (sqTurn dma sqSize buffer s g).1

/-- The command has no data to move, or moves the same bytes to where they are already. -/
structure MovesNothing (dma : Dma NvmeMark) (s : EduNvmeState) (g : Guest NvmeMark)
    (cmd : NvmeCmd) : Prop where
  identify : cmd.opcode = nvmeCmdIdentify → cmd.prp1 = 0
  read : cmd.opcode = nvmeCmdRead → cmd.Rejected
  write : cmd.opcode = nvmeCmdWrite → ¬ cmd.Rejected → ReadLeaves dma g cmd.prp1 (s.blocks cmd)

/-- A fetch that fails fills the whole buffer all the same, with a command that moves nothing. -/
def FailsHarmlessly (dma : Dma NvmeMark) (s : EduNvmeState) (g : Guest NvmeMark) : Prop :=
  ∀ fill, dma.readFault g.trace s.sqeAddr 64 = some fill →
    ∃ entry : List Byte, entry.length = 64 ∧
      (∀ index (inside : index < entry.length), fill index = some entry[index]) ∧
      MovesNothing dma s ((g.log (.dmaRead s.sqeAddr entry .error)).log
        (.mark (.command (NvmeCmd.decode entry)))) (NvmeCmd.decode entry)

/-- Every byte of an entry is one of some field of its command. -/
theorem NvmeCmd.decode_inj {first second : List Byte} (whole : first.length = 64)
    (other : second.length = 64) (same : NvmeCmd.decode first = NvmeCmd.decode second) :
    first = second := by
  apply List.ext_getElem (whole.trans other.symm)
  intro index low high
  have field (width offset : Nat) (word : wordAt width first offset = wordAt width second offset)
      (inside : offset ≤ index ∧ index < offset + width / 8) : first[index] = second[index] :=
    getElem_of_wordAt word inside low high
  rcases Nat.lt_or_ge index 16 with early | late
  · rcases (by omega : index = 0 ∨ index = 1 ∨ (2 ≤ index ∧ index < 4) ∨ (4 ≤ index ∧ index < 8) ∨
        (8 ≤ index ∧ index < 16)) with zero | one | cid | nsid | rsvd
    · exact field 8 0 (congrArg NvmeCmd.opcode same) (by omega)
    · exact field 8 1 (congrArg NvmeCmd.flags same) (by omega)
    · exact field 16 2 (congrArg NvmeCmd.cid same) (by omega)
    · exact field 32 4 (congrArg NvmeCmd.nsid same) (by omega)
    · exact field 64 8 (congrArg NvmeCmd.rsvd same) (by omega)
  · rcases (by omega : (16 ≤ index ∧ index < 24) ∨ (24 ≤ index ∧ index < 32) ∨
        (32 ≤ index ∧ index < 40) ∨ (40 ≤ index ∧ index < 44) ∨ (44 ≤ index ∧ index < 48) ∨
        (48 ≤ index ∧ index < 52) ∨ (52 ≤ index ∧ index < 56) ∨ (56 ≤ index ∧ index < 60) ∨
        (60 ≤ index ∧ index < 64)) with
      mptr | prp1 | prp2 | cdw10 | cdw11 | cdw12 | cdw13 | cdw14 | cdw15
    · exact field 64 16 (congrArg NvmeCmd.mptr same) (by omega)
    · exact field 64 24 (congrArg NvmeCmd.prp1 same) (by omega)
    · exact field 64 32 (congrArg NvmeCmd.prp2 same) (by omega)
    · exact field 32 40 (congrArg NvmeCmd.cdw10 same) (by omega)
    · exact field 32 44 (congrArg NvmeCmd.cdw11 same) (by omega)
    · exact field 32 48 (congrArg NvmeCmd.cdw12 same) (by omega)
    · exact field 32 52 (congrArg NvmeCmd.cdw13 same) (by omega)
    · exact field 32 56 (congrArg NvmeCmd.cdw14 same) (by omega)
    · exact field 32 60 (congrArg NvmeCmd.cdw15 same) (by omega)

section Turn

variable {dma : Dma NvmeMark} {s : EduNvmeState} {g : Guest NvmeMark} {cmd : NvmeCmd}

/-- The switch moves nothing exactly for the commands that have nothing to move. -/
theorem nvmeTransfer_nothing_iff :
    ∃ moved, (nvmeTransfer dma s g cmd).2.2.trace = g.trace ++ moved ∧
      (((nvmeTransfer dma s g cmd).2.1.storage = s.storage ∧
        ∀ address data result, .dmaWrite address data result ∉ moved) ↔
          MovesNothing dma s g cmd) := by
  have still (nothing : MovesNothing dma s g cmd) : ∃ moved, g.trace = g.trace ++ moved ∧
      ((s.storage = s.storage ∧ ∀ address data result,
        (.dmaWrite address data result : Event NvmeMark) ∉ moved) ↔ MovesNothing dma s g cmd) :=
    ⟨[], (List.append_nil _).symm, iff_of_true ⟨rfl, fun _ _ _ => List.not_mem_nil⟩ nothing⟩
  have sent (data : List Byte) (moves : ¬ MovesNothing dma s g cmd) :
      ∃ moved, (pciDmaWrite dma g cmd.prp1 data).2.trace = g.trace ++ moved ∧
        ((s.storage = s.storage ∧ ∀ address data result,
          (.dmaWrite address data result : Event NvmeMark) ∉ moved) ↔ MovesNothing dma s g cmd) :=
    ⟨_, pciDmaWrite_trace .., iff_of_false (fun nothing => nothing.2 _ _ _ List.mem_cons_self) moves⟩
  cases cmd.branch with
  | identify identifies =>
      have reads : cmd.opcode ≠ nvmeCmdRead := by rw [identifies]; decide
      have writes : cmd.opcode ≠ nvmeCmdWrite := by rw [identifies]; decide
      rw [nvmeTransfer_identify _ _ _ identifies]
      by_cases addressed : cmd.prp1 ≠ 0
      · rw [if_pos addressed]
        exact sent _ fun nothing => addressed (nothing.identify identifies)
      · rw [if_neg addressed]
        exact still ⟨fun _ => not_not.mp addressed, fun opcode => absurd opcode reads,
          fun opcode => absurd opcode writes⟩
  | refused moves rejected =>
      have identifies : cmd.opcode ≠ nvmeCmdIdentify := by
        rcases moves with reads | writes
        · rw [reads]; decide
        · rw [writes]; decide
      rw [nvmeTransfer_refused _ _ _ moves rejected]
      exact still ⟨fun opcode => absurd opcode identifies, fun _ => rejected,
        fun _ passed => absurd rejected passed⟩
  | reading reads passed =>
      rw [nvmeTransfer_reading _ _ _ reads passed]
      exact sent _ fun nothing => passed (nothing.read reads)
  | writing writes passed =>
      have identifies : cmd.opcode ≠ nvmeCmdIdentify := by rw [writes]; decide
      have reads : cmd.opcode ≠ nvmeCmdRead := by rw [writes]; decide
      have keeps := @nvmeTransfer_keeps_iff dma s g _ writes passed
      rw [← readLeaves_iff] at keeps
      rw [keeps, nvmeTransfer_writing _ _ _ writes passed]
      refine ⟨_, pciDmaRead_trace .., ?_⟩
      constructor
      · intro nothing
        exact ⟨fun opcode => absurd opcode identifies, fun opcode => absurd opcode reads,
          fun _ _ => nothing.1⟩
      · intro nothing
        exact ⟨nothing.write writes passed, by simp⟩
  | unknown identifies reads writes =>
      rw [nvmeTransfer_unknown _ _ _ identifies reads writes]
      exact still ⟨fun opcode => absurd opcode identifies, fun opcode => absurd opcode reads,
        fun opcode => absurd opcode writes⟩

/-- What a turn sends between its command and its completion is what the switch sent. -/
theorem sendsNothing_iff {next : Guest NvmeMark} {bytes : List Byte} {fetch : MemTxResult}
    {moved : List (Event NvmeMark)} {cqe : NvmeCqe} {posted : MemTxResult}
    (grown : next.trace = g.trace ++ ([.dmaRead s.sqeAddr bytes fetch, .mark (.command cmd)] ++ moved ++
      [.mark (.completion s.cqeAddr cqe), .dmaWrite s.cqeAddr cqe.encode posted] ++ s.notices)) :
    SendsNothing s g next ↔ ∀ address data result, .dmaWrite address data result ∉ moved := by
  constructor
  · intro ⟨_, _, _, between, _, _, same, absent⟩
    rw [grown] at same
    have turn := List.append_cancel_right (List.append_cancel_left same)
    have command := (List.append_inj' turn rfl).1
    have data := (List.append_inj command rfl).2
    rw [data]
    exact absent
  · intro absent
    exact ⟨bytes, fetch, cmd, moved, cqe, posted, grown, absent⟩

/-- A turn moves nothing exactly when what it fetched is a command that moves nothing. -/
theorem sqTurn_nothing_iff (sqSize : BitVec 16) (buffer : List Byte) :
    ((sqTurn dma sqSize buffer s g).2.1.storage = s.storage ∧
      SendsNothing s g (sqTurn dma sqSize buffer s g).2.2) ↔
      MovesNothing dma s ((pciDmaRead dma g s.sqeAddr buffer).2.2.log
          (.mark (.command (NvmeCmd.decode (pciDmaRead dma g s.sqeAddr buffer).2.1))))
        (NvmeCmd.decode (pciDmaRead dma g s.sqeAddr buffer).2.1) := by
  have logged := pciDmaRead_trace dma g s.sqeAddr buffer
  rw [sqTurn_eq]
  generalize pciDmaRead dma g s.sqeAddr buffer = fetched at logged
  obtain ⟨fetch, bytes, guest⟩ := fetched
  dsimp only at logged ⊢
  obtain ⟨moved, trace, nothing⟩ := @nvmeTransfer_nothing_iff dma s
    (guest.log (.mark (.command (NvmeCmd.decode bytes)))) (NvmeCmd.decode bytes)
  obtain ⟨posted, grown⟩ := eduNvmeProcessCmd_trace dma s guest (NvmeCmd.decode bytes) trace
  rw [logged, List.append_assoc] at grown
  rw [← nothing, advanceSqHead_eq, eduNvmeProcessCmd_storage, sendsNothing_iff grown]

/-- A fault that fills the whole buffer fetches the same into every buffer. -/
theorem mapIdx_of_filled {fill : Nat → Option Byte} {entry buffer : List Byte}
    (filled : ∀ index (inside : index < entry.length), fill index = some entry[index])
    (whole : buffer.length = entry.length) :
    (buffer.mapIdx fun index old => (fill index).getD old) = entry := by
  apply List.ext_getElem (by rw [List.length_mapIdx, whole])
  intro index _ inside
  rw [List.getElem_mapIdx, filled index inside, Option.getD_some]

/-- A fault that leaves a byte of the buffer as it was fetches different entries into buffers that
differ there. -/
theorem filled_of_independent {fill : Nat → Option Byte} {buffer : List Byte}
    (independent : ∀ other : List Byte, other.length = buffer.length →
      (other.mapIdx fun index old => (fill index).getD old) =
        buffer.mapIdx fun index old => (fill index).getD old)
    (index : Nat) (inside : index < (buffer.mapIdx fun index old => (fill index).getD old).length) :
    fill index = some (buffer.mapIdx fun index old => (fill index).getD old)[index] := by
  rw [List.getElem_mapIdx]
  rw [List.length_mapIdx] at inside
  cases left : fill index with
  | some byte => rfl
  | none =>
      have same := independent (buffer.set index (buffer[index] + 1)) (List.length_set ..)
      have byte := congrArg (fun bytes : List Byte => bytes[index]?) same
      simp only [List.getElem?_mapIdx, List.getElem?_set_self inside, List.getElem?_eq_getElem inside,
        left, Option.map_some, Option.getD_none, Option.some.injEq] at byte
      exact absurd byte (by simp)

/-- A failed fetch executes nothing exactly when it fails harmlessly. -/
theorem failedFetch_nothing_iff (sqSize : BitVec 16) (buffer : List Byte)
    (whole : buffer.length = 64) :
    ((pciDmaRead dma g s.sqeAddr buffer).1 = .error → ExecutesNothing dma sqSize buffer s g) ↔
      FailsHarmlessly dma s g := by
  have nothing := @sqTurn_nothing_iff dma s g sqSize buffer
  unfold FailsHarmlessly
  cases fault : dma.readFault g.trace s.sqeAddr 64 with
  | none =>
      have works : (pciDmaRead dma g s.sqeAddr buffer).1 = .ok := by
        rw [pciDmaRead_ok_iff, whole, fault]
      exact iff_of_true (fun fails => by rw [works] at fails; cases fails) (fun fill known => by cases known)
  | some fill =>
      have fetched (other : List Byte) (length : other.length = 64) :=
        @pciDmaRead_of_error _ dma g s.sqeAddr other fill (length ▸ fault)
      have decoded (other : List Byte) (length : other.length = 64) :
          (sqTurn dma sqSize other s g).1 = other.mapIdx fun index old => (fill index).getD old :=
        congrArg (fun outcome => outcome.2.1) (fetched other length)
      rw [fetched buffer whole] at nothing ⊢
      constructor
      · intro executes
        obtain ⟨storage, sends, independent⟩ := executes rfl
        intro other known
        obtain rfl := Option.some.inj known
        have filled := @filled_of_independent fill buffer (by
          intro other length
          have commands := independent other length
          rw [decoded other (length.trans whole), decoded buffer whole] at commands
          exact NvmeCmd.decode_inj (by rw [List.length_mapIdx, length, whole])
            (by rw [List.length_mapIdx, whole]) commands)
        exact ⟨_, by rw [List.length_mapIdx, whole], filled, nothing.mp ⟨storage, sends⟩⟩
      · intro harmless _
        obtain ⟨entry, length, filled, moves⟩ := harmless fill rfl
        rw [mapIdx_of_filled filled (whole.trans length.symm)] at nothing
        obtain ⟨storage, sends⟩ := nothing.mpr moves
        refine ⟨storage, sends, fun other same => ?_⟩
        rw [decoded other (same.trans whole), decoded buffer whole,
          mapIdx_of_filled filled ((same.trans whole).trans length.symm),
          mapIdx_of_filled filled (whole.trans length.symm)]

end Turn

/-- In a run from the realize function no turn of a doorbell in the queue executes an entry that it
could not fetch exactly when each failed fetch fails harmlessly. -/
theorem nvmeFetch_failure_iff (dma : Dma NvmeMark) (parentObj : PCIDevice) (outside : Memory)
    (g : Guest NvmeMark) (writes : List HostWrite) :
    Legal (fun machine write => write.addr = nvmeSq0tdbl →
          (write.val.setWidth 16).toNat < sqSizeOf machine.1.aqa →
          EveryRungTurn (fun sqSize buffer s g => (pciDmaRead dma g s.sqeAddr buffer).1 = .error →
            ExecutesNothing dma sqSize buffer s g) dma machine write)
        (nvmeAccess dma) (EduNvmeState.realized parentObj outside, g) writes ↔
      Legal (fun machine write => write.addr = nvmeSq0tdbl →
          (write.val.setWidth 16).toNat < sqSizeOf machine.1.aqa →
          EveryRungTurn (fun _ _ s g => FailsHarmlessly dma s g) dma machine write)
        (nvmeAccess dma) (EduNvmeState.realized parentObj outside, g) writes := by
  apply Legal.congr
  intro machine write
  refine forall₂_congr fun _ _ => EveryRungTurn.congr ?_ machine write
  intro sqSize buffer s g whole
  exact failedFetch_nothing_iff sqSize buffer whole

/-- The entry cannot be fetched, and the device executes what the stack holds: a write. -/
theorem nvmeFetch_failure_executes :
    let dma : Dma NvmeMark := (DmaPattern.mk
        (fun address _ => if address = 0 then some fun _ => none else none) fun _ _ => none).dma
      fun _ index => if index = 0 then 1 else if index = 25 then 0x20 else 0
    let g : Guest NvmeMark := ⟨fun _ => 7, []⟩
    let writes : List HostWrite := [⟨id, nvmeAqa, 0x00010001⟩, ⟨id, nvmeSq0tdbl, 1⟩]
    ¬ Legal (fun machine write => write.addr = nvmeSq0tdbl →
          (write.val.setWidth 16).toNat < sqSizeOf machine.1.aqa →
          EveryRungTurn (fun sqSize buffer s g => (pciDmaRead dma g s.sqeAddr buffer).1 = .error →
            ExecutesNothing dma sqSize buffer s g) dma machine write)
        (nvmeAccess dma) (EduNvmeState.realized ⟨true⟩ fun _ => 0, g) writes ∧
      (run (nvmeAccess dma) (EduNvmeState.realized ⟨true⟩ fun _ => 0, g) writes).toOption.map
        (fun machine => machine.1.storage 0) = some 7 := by
  intro dma g writes
  refine ⟨fun legal => ?_, by decide +kernel⟩
  obtain ⟨doorbell, -⟩ := legal.2 _ rfl
  obtain ⟨turn, -⟩ := doorbell rfl (by decide) 1 (by decide)
  have harmless := (failedFetch_nothing_iff _ _ (length_stackBuffer ..)).mp turn
  obtain ⟨entry, length, filled, -⟩ := harmless (fun _ => none) rfl
  cases filled 0 (by rw [length]; decide)

end EduDevices
