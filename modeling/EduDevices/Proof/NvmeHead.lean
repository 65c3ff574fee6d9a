import EduDevices.Proof.NvmeTermination

namespace EduDevices

open Execution

def NvmeMark.cqe? : NvmeMark → Option NvmeCqe
  | .completion _ cqe => some cqe
  | .command _ => none

/-- The completions that were posted since the trace had the given length. -/
def postedCqes (opening : Nat) (g : Guest NvmeMark) : List NvmeCqe :=
  ((g.trace.drop opening).filterMap Event.marked).filterMap NvmeMark.cqe?

/-- The heads that the completions of a doorbell report account for every entry that it consumed: each
one is the slot after that of its command, and by the last one the host finds the queue empty. -/
structure ReportsConsumed (machine final : EduNvmeState × Guest NvmeMark) : Prop where
  each : ∀ (index : Nat) cqe, (postedCqes machine.2.trace.length final.2)[index]? = some cqe →
    cqe.sqHead.toNat = (machine.1.sqHead.toNat + index + 1) % sqSizeOf machine.1.aqa
  last : ∀ cqe, (postedCqes machine.2.trace.length final.2).getLast? = some cqe →
    cqe.sqHead = final.1.sqHead
  empty : ∀ cqe, (postedCqes machine.2.trace.length final.2).getLast? = some cqe →
    Cyclic.distance (sqSizeOf machine.1.aqa) cqe.sqHead.toNat final.1.sqTail.toNat = 0

/-- The doorbell returns with the head at the tail it was given, and has reported the head so. -/
def DoorbellReports (dma : Dma NvmeMark) (machine : EduNvmeState × Guest NvmeMark)
    (write : HostWrite) : Prop :=
  ∃ final, nvmeAccess dma machine write = .ok final ∧
    final.1.sqHead = write.val.setWidth 16 ∧ ReportsConsumed machine final

def NvmeMark.reported (mark : NvmeMark) : Option Nat :=
  mark.cqe?.map fun cqe => cqe.sqHead.toNat

/-- The completions by which the trace grew report the slots of consecutive positions. -/
abbrev Reports (size position count : Nat) (g next : Guest NvmeMark) : Prop :=
  g.Shows NvmeMark.reported (· % size) position count next

section Loop

variable {dma : Dma NvmeMark} {sqSize : BitVec 16} {cmd : List Byte} {s : EduNvmeState}
  {g : Guest NvmeMark}

/-- The completion of a turn takes the head before the turn moves it on. -/
theorem sqTurn_reports {position : Nat} (slot : s.sqHead.toNat = position % sqSize.toNat) :
    Reports sqSize.toNat position 1 g (sqTurn dma sqSize cmd s g).2.2 := by
  obtain ⟨storage, moved, status, posted, bytes, fetch, -, move, -, -, -, trace⟩ :=
    sqTurn_spec dma sqSize cmd s g
  have shown : NvmeMark.reported (.completion s.cqeAddr
      (s.completionOf (NvmeCmd.decode bytes) status)) = some (position % sqSize.toNat) :=
    congrArg some slot
  refine ⟨_, ⟨_, trace, turn_marked move ..⟩, ?_⟩
  rw [List.filterMap_cons_none rfl, List.filterMap_cons_some shown]
  rfl

/-- The loop reports the slots of the commands that it executes. -/
theorem sqLoop_reports {turns position : Nat} {final : EduNvmeState × Guest NvmeMark}
    (returned : sqLoop dma sqSize turns cmd s g = .ok final)
    (slot : s.sqHead.toNat = position % sqSize.toNat) (target : s.sqTail.toNat < sqSize.toNat) :
    Reports sqSize.toNat position
      (Cyclic.distance sqSize.toNat s.sqHead.toNat s.sqTail.toNat) g final.2 := by
  induction turns generalizing position cmd s g with
  | zero => cases returned
  | succ turns ih =>
      have inside : s.sqHead.toNat < sqSize.toNat := by
        rw [slot]
        exact Nat.mod_lt _ (Nat.zero_lt_of_lt target)
      by_cases pending : s.sqHead ≠ s.sqTail
      · have different : s.sqHead.toNat ≠ s.sqTail.toNat := mt BitVec.eq_of_toNat_eq pending
        have head : (sqTurn dma sqSize cmd s g).2.1.sqHead.toNat =
            (s.sqHead.toNat + 1) % sqSize.toNat := by
          rw [sqTurn_sqHead, toNat_advanceSqHead s sqSize inside]
        have next : (sqTurn dma sqSize cmd s g).2.1.sqHead.toNat = (position + 1) % sqSize.toNat := by
          rw [head, slot, Cyclic.slot_add]
        have tail := @sqTurn_sqTail dma sqSize cmd s g
        have first := @sqTurn_reports dma sqSize cmd s g position slot
        rw [sqLoop, if_pos pending] at returned
        generalize sqTurn dma sqSize cmd s g = turn at head next tail first returned
        have later := ih returned next (by rwa [tail])
        rw [head, tail] at later
        rw [← Cyclic.distance_next inside target different, Nat.add_comm]
        exact first.trans later
      · have level := not_not.mp pending
        rw [sqLoop, if_neg pending] at returned
        obtain rfl := Except.ok.inj returned
        rw [level, (Cyclic.distance_eq_zero_iff target target).mpr rfl]
        exact .none position g

end Loop

section Doorbell

variable (dma : Dma NvmeMark) (s : EduNvmeState) (g : Guest NvmeMark) (write : HostWrite)

/-- A doorbell reports the slots of its commands, from the head up to the tail. -/
theorem doorbell_reports (rings : write.addr = nvmeSq0tdbl)
    (inside : s.sqHead.toNat < sqSizeOf s.aqa)
    (target : (write.val.setWidth 16).toNat < sqSizeOf s.aqa) :
    ∃ final, nvmeAccess dma (s, g) write = .ok final ∧ final.1.sqHead = write.val.setWidth 16 ∧
      final.1.sqTail = write.val.setWidth 16 ∧
      (postedCqes g.trace.length final.2).map (fun cqe => cqe.sqHead.toNat) =
        (List.range' s.sqHead.toNat (Cyclic.distance (sqSizeOf s.aqa) s.sqHead.toNat
          (write.val.setWidth 16).toNat)).map (· % sqSizeOf s.aqa) := by
  obtain ⟨final, returned, head, tail, access⟩ :=
    (doorbellEnds_iff dma s g write rings).mpr (.inl target)
  have slot : s.sqHead.toNat = s.sqHead.toNat % sqSizeOf s.aqa := (Nat.mod_eq_of_lt inside).symm
  rw [← toNat_sqSize] at slot target
  have reports := sqLoop_reports returned slot target
  have shown := Guest.Shows.drop reports
  rw [toNat_sqSize] at shown
  refine ⟨final, access, head, tail, ?_⟩
  rw [postedCqes, List.map_filterMap]
  exact shown

/-- The reported head accounts for what was consumed exactly when the doorbell executes nothing: each
completion is one slot behind. -/
theorem doorbellReports_iff (rings : write.addr = nvmeSq0tdbl)
    (inside : s.sqHead.toNat < sqSizeOf s.aqa)
    (target : (write.val.setWidth 16).toNat < sqSizeOf s.aqa) :
    DoorbellReports dma (s, g) write ↔ write.val.setWidth 16 = s.sqHead := by
  obtain ⟨final, access, head, tail, reported⟩ := doorbell_reports dma s g write rings inside target
  constructor
  · intro ⟨other, returned, _, reports⟩
    obtain rfl := Except.ok.inj (access.symm.trans returned)
    by_contra pending
    have apart : s.sqHead.toNat ≠ (write.val.setWidth 16).toNat :=
      mt BitVec.eq_of_toNat_eq (Ne.symm pending)
    have nearer := Cyclic.distance_next inside target apart
    rw [← nearer, List.range'_succ, List.map_cons, List.map_eq_cons_iff] at reported
    obtain ⟨cqe, later, posted, own, -⟩ := reported
    have counted := reports.each 0 cqe (by rw [posted]; rfl)
    have next := succ_mod inside
    rw [Nat.add_zero] at counted
    rw [Nat.mod_eq_of_lt inside] at own
    rw [own, next] at counted
    split at counted <;> omega
  · intro level
    rw [level, (Cyclic.distance_eq_zero_iff inside inside).mpr rfl] at reported
    have silent : postedCqes g.trace.length final.2 = [] := List.map_eq_nil_iff.mp reported
    refine ⟨final, access, head, ?_⟩
    constructor
    · intro index cqe posted
      rw [silent] at posted
      cases posted
    · intro cqe posted
      rw [silent] at posted
      cases posted
    · intro cqe posted
      rw [silent] at posted
      cases posted

end Doorbell

/-- The doorbell takes the head around the end of a queue of four slots. -/
theorem doorbellReports_around :
    let dma : Dma NvmeMark := DmaPattern.reliable.dma fun _ _ => 0
    let s : EduNvmeState := { EduNvmeState.realized ⟨true⟩ fun _ => 0 with
      aqa := 0x00030003, asq := 0x1000, acq := 0x2000, sqHead := 3 }
    let g : Guest NvmeMark := ⟨fun _ => 0, []⟩
    let write : HostWrite := ⟨id, nvmeSq0tdbl, 1⟩
    DoorbellReports dma (s, g) write ↔ write.val.setWidth 16 = s.sqHead := by
  intro dma s g write
  exact doorbellReports_iff dma s g write rfl (by decide) (by decide)

/-- A host of a queue of two slots submits its first command. The completion reports the head of that
command, so the host finds the queue full although the device has emptied it. -/
theorem doorbellReports_behind :
    let dma : Dma NvmeMark := DmaPattern.reliable.dma fun _ _ => 0
    let g : Guest NvmeMark := ⟨fun _ => 0, []⟩
    let write : HostWrite := ⟨id, nvmeSq0tdbl, 1⟩
    ∃ s final, run (nvmeAccess dma) (EduNvmeState.realized ⟨true⟩ fun _ => 0, g)
        [⟨id, nvmeAqa, 1⟩, ⟨id, nvmeAsq, 0x1000⟩, ⟨id, nvmeAcq, 0x2000⟩, ⟨id, nvmeCc, 1⟩] =
        .ok (s, g) ∧
      s.csts &&& nvmeCstsRdy ≠ 0 ∧ s.sqHead.toNat < sqSizeOf s.aqa ∧
      (write.val.setWidth 16).toNat < sqSizeOf s.aqa ∧
      nvmeAccess dma (s, g) write = .ok final ∧ final.1.sqHead = 1 ∧
      (postedCqes g.trace.length final.2).map (fun cqe => cqe.sqHead.toNat) = [0] ∧
      ¬ DoorbellReports dma (s, g) write := by
  intro dma g write
  let s : EduNvmeState := { EduNvmeState.realized ⟨true⟩ fun _ => 0 with
    cc := 1, csts := 1, aqa := 1, asq := 0x1000, acq := 0x2000 }
  have inside : s.sqHead.toNat < sqSizeOf s.aqa := by decide
  have target : (write.val.setWidth 16).toNat < sqSizeOf s.aqa := by decide
  obtain ⟨final, access, head, -, reported⟩ := doorbell_reports dma s g write rfl inside target
  have behind : (postedCqes g.trace.length final.2).map (fun cqe => cqe.sqHead.toNat) = [0] :=
    reported.trans (by decide)
  refine ⟨s, final, by with_unfolding_all rfl, by decide, inside, target, access, head, behind, ?_⟩
  intro ⟨other, returned, _, reports⟩
  obtain rfl := Except.ok.inj (access.symm.trans returned)
  obtain ⟨cqe, posted, own⟩ := List.map_eq_singleton_iff.mp behind
  have counted := reports.last cqe (by rw [posted]; rfl)
  rw [counted, head] at own
  exact absurd own (by decide)

end EduDevices
