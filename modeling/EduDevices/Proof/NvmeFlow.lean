import EduDevices.Proof.NvmeQueue

namespace EduDevices

open CircularQueue (slotAt_eq_iff)
open Execution (Chained)

def NvmeMark.posted : NvmeMark → Option Address
  | .completion slot _ => some slot
  | .command _ => none

/-- The slots of the completions that were posted since the trace had the given length. -/
def postedSlots (opening : Nat) (g : Guest NvmeMark) : List Address :=
  ((g.trace.drop opening).filterMap Event.marked).filterMap NvmeMark.posted

def NvmeDoorbell.tail? : NvmeDoorbell → Option Nat
  | .submission _ tail => some tail.toNat
  | .completion _ _ => none

def NvmeDoorbell.head? : NvmeDoorbell → Option Nat
  | .submission _ _ => none
  | .completion _ head => some head.toNat

/-- The host submits and consumes entries by moving the two indices that it owns. -/
def submitted (aqa : BitVec 32) (doorbells : List NvmeDoorbell) : Nat :=
  Cyclic.travelled (sqSizeOf aqa) 0 (doorbells.filterMap NvmeDoorbell.tail?)

def consumed (aqa : BitVec 32) (doorbells : List NvmeDoorbell) : Nat :=
  Cyclic.travelled (cqSizeOf aqa) 0 (doorbells.filterMap NvmeDoorbell.head?)

/-- No slot of the queue holds more than one completion that the host has not consumed. The second
property looks at the queue at the end of a submission doorbell, by which it has posted its last
completion. -/
structure NoOverrun (aqa : BitVec 32) (doorbells : List NvmeDoorbell) (posted : List Address) :
    Prop where
  bounded : posted.length ≤ consumed aqa doorbells + (aqa >>> 16).toNat
  distinct : ∀ before host tail after, doorbells = before ++ .submission host tail :: after →
    ∀ first second, consumed aqa before ≤ first → first < second →
      second < submitted aqa (before ++ [.submission host tail]) → posted[first]? ≠ posted[second]?

/-- The host submits no more commands than the completion queue has room for. -/
def LeavesRoom (aqa : BitVec 32) (doorbells : List NvmeDoorbell) : Prop :=
  ∀ before host tail after, doorbells = before ++ .submission host tail :: after →
    submitted aqa (before ++ [.submission host tail]) ≤ consumed aqa before + (aqa >>> 16).toNat

theorem submitted_append_le (aqa : BitVec 32) (before after : List NvmeDoorbell) :
    submitted aqa before ≤ submitted aqa (before ++ after) := by
  rw [submitted, submitted, List.filterMap_append, Cyclic.travelled_append]
  exact Nat.le_add_right _ _

theorem consumed_append_le (aqa : BitVec 32) (before after : List NvmeDoorbell) :
    consumed aqa before ≤ consumed aqa (before ++ after) := by
  rw [consumed, consumed, List.filterMap_append, Cyclic.travelled_append]
  exact Nat.le_add_right _ _

/-- Room at each submission doorbell is room at every time. -/
theorem LeavesRoom.submitted_le {aqa : BitVec 32} {doorbells : List NvmeDoorbell}
    (room : LeavesRoom aqa doorbells) :
    submitted aqa doorbells ≤ consumed aqa doorbells + (aqa >>> 16).toNat := by
  induction doorbells using List.reverseRecOn with
  | nil => exact Nat.zero_le _
  | append_singleton before doorbell ih =>
      cases doorbell with
      | submission host tail =>
          have last := room before host tail [] rfl
          exact last.trans (Nat.add_le_add_right (consumed_append_le aqa before _) _)
      | completion host head =>
          have earlier : LeavesRoom aqa before := by
            rintro before host tail after rfl
            exact room before host tail (after ++ _) (by rw [List.append_assoc]; rfl)
          have same : submitted aqa (before ++ [.completion host head]) = submitted aqa before := by
            rw [submitted, submitted, List.filterMap_append]
            exact congrArg _ (List.append_nil _)
          rw [same]
          exact (ih earlier).trans (Nat.add_le_add_right (consumed_append_le aqa before _) _)

/-- The trace grew by the completions of consecutive positions, each in its slot. -/
def Posts (base : EduNvmeState) (executed count : Nat) (g next : Guest NvmeMark) : Prop :=
  ∃ marks, g.Marks next marks ∧
    marks.filterMap NvmeMark.posted = (List.range' executed count).map base.cqSlot

section Postings

variable {base : EduNvmeState} {executed : Nat} {g next : Guest NvmeMark}

theorem Posts.none (base : EduNvmeState) (executed : Nat) (g : Guest NvmeMark) :
    Posts base executed 0 g g :=
  Guest.Shows.none executed g

theorem Posts.trans {first second : Nat} {middle : Guest NvmeMark}
    (one : Posts base executed first g middle)
    (other : Posts base (executed + first) second middle next) :
    Posts base executed (first + second) g next :=
  Guest.Shows.trans one other

/-- An answer posts one completion, in the slot of its position. -/
theorem Answers.posts {bytes : List Byte} {fetch : MemTxResult}
    (answer : Answers base executed bytes fetch g next) : Posts base executed 1 g next := by
  obtain ⟨moved, cqe, posted, move, -, trace⟩ := answer
  exact ⟨_, ⟨_, trace, turn_marked move ..⟩, rfl⟩

theorem chained_posts {count : Nat}
    (served : Chained (fun position => Posts base position 1) executed count g next) :
    Posts base executed count g next := by
  induction served with
  | done position state => exact .none base position state
  | next one rest ih =>
      rw [Nat.add_comm]
      exact one.trans ih

theorem Rung.posts {tail : Nat} {doorbells : List NvmeDoorbell}
    (rung : Rung (fun position => Posts base position 1) (sqSizeOf base.aqa) executed tail doorbells
      g next) :
    Posts base executed (Cyclic.travelled (sqSizeOf base.aqa) tail
      (doorbells.filterMap NvmeDoorbell.tail?)) g next := by
  induction rung with
  | none executed tail g => exact .none base executed g
  | submission served later ih => exact (chained_posts served).trans ih
  | completion later ih => exact ih

end Postings

/-- Every run posts one completion for each submitted command, whatever the host has consumed. -/
theorem run_posts (dma : Dma NvmeMark) (s : EduNvmeState) (g : Guest NvmeMark)
    (val : BitVec 64) (enables : val &&& nvmeCcEn ≠ 0) (doorbells : List NvmeDoorbell)
    (inside : ∀ doorbell ∈ doorbells, doorbell.InQueue (sqSizeOf s.aqa)) :
    ∃ enabled last guest, eduNvmeWrite dma s g nvmeCc val = .ok (enabled, g) ∧
      Execution.run (nvmeAccess dma) (enabled, g) (doorbells.map NvmeDoorbell.write) =
        .ok (last, guest) ∧
      postedSlots g.trace.length guest = (List.range (submitted s.aqa doorbells)).map s.cqSlot := by
  obtain ⟨enabled, taken, progress, level, empty⟩ := enable_progress dma s g val enables
  obtain ⟨last, guest, finished, rung, -, -⟩ :=
    progress.run dma (fun _ _ _ _ _ answer => answer.posts) level g doorbells inside
  rw [empty] at rung
  have posted := Guest.Shows.drop rung.posts
  refine ⟨enabled, last, guest, taken, finished, ?_⟩
  rw [postedSlots, posted, List.range_eq_range']
  rfl

/-- The device posts without regard to the completion queue head, which no handler reads back. So
the host has to leave room, and as long as it does no completion is lost. -/
theorem nvmeCompletion_noOverrun (dma : Dma NvmeMark) (s : EduNvmeState) (g : Guest NvmeMark)
    (val : BitVec 64) (enables : val &&& nvmeCcEn ≠ 0) (doorbells : List NvmeDoorbell)
    (inside : ∀ doorbell ∈ doorbells, doorbell.InQueue (sqSizeOf s.aqa)) :
    ∃ enabled last guest, eduNvmeWrite dma s g nvmeCc val = .ok (enabled, g) ∧
      Execution.run (nvmeAccess dma) (enabled, g) (doorbells.map NvmeDoorbell.write) =
        .ok (last, guest) ∧
      postedSlots g.trace.length guest = (List.range (submitted s.aqa doorbells)).map s.cqSlot ∧
      (LeavesRoom s.aqa doorbells →
        NoOverrun s.aqa doorbells (postedSlots g.trace.length guest)) := by
  obtain ⟨enabled, last, guest, taken, finished, posted⟩ :=
    run_posts dma s g val enables doorbells inside
  refine ⟨enabled, last, guest, taken, finished, posted, fun room => ?_⟩
  rw [posted]
  constructor
  · rw [List.length_map, List.length_range]
    exact room.submitted_le
  · intro before host tail after split first second unconsumed ordered pending
    have room := room before host tail after split
    have total : submitted s.aqa (before ++ [.submission host tail]) ≤ submitted s.aqa doorbells := by
      have earlier := submitted_append_le s.aqa (before ++ [.submission host tail]) after
      rwa [List.append_assoc, List.singleton_append, ← split] at earlier
    have size : cqSizeOf s.aqa = (s.aqa >>> 16).toNat + 1 := rfl
    have limit := cqSizeOf_le s.aqa
    have slots : s.cqSlot first = s.cqSlot second ↔
        first % cqSizeOf s.aqa = second % cqSizeOf s.aqa :=
      slotAt_eq_iff (by omega) (by decide) (by omega) first second
    have apart : first % cqSizeOf s.aqa = second % cqSizeOf s.aqa ↔ first = second :=
      Cyclic.slot_eq_iff (by omega) (by omega)
    rw [List.getElem?_map, List.getElem?_map, List.getElem?_range (by omega),
      List.getElem?_range (by omega)]
    intro same
    have slot : s.cqSlot first = s.cqSlot second := Option.some.inj same
    exact absurd (apart.mp (slots.mp slot)) (Nat.ne_of_lt ordered)

/-- With two completion slots the host submits one command, consumes its completion and submits
one more. -/
theorem nvmeCompletion_noOverrun_alternating :
    let dma : Dma NvmeMark := DmaPattern.reliable.dma fun _ _ => 0
    let s : EduNvmeState := { EduNvmeState.realized ⟨true⟩ fun _ => 0 with
      aqa := 0x00010003, asq := 0x1000, acq := 0x2000 }
    let g : Guest NvmeMark := ⟨fun _ => 0, []⟩
    let doorbells : List NvmeDoorbell := [.submission id 1, .completion id 1, .submission id 2]
    LeavesRoom s.aqa doorbells ∧
    ∃ enabled last guest, eduNvmeWrite dma s g nvmeCc 1 = .ok (enabled, g) ∧
      Execution.run (nvmeAccess dma) (enabled, g) (doorbells.map NvmeDoorbell.write) =
        .ok (last, guest) ∧
      postedSlots g.trace.length guest = (List.range (submitted s.aqa doorbells)).map s.cqSlot ∧
      NoOverrun s.aqa doorbells (postedSlots g.trace.length guest) := by
  intro dma s g doorbells
  have room : LeavesRoom s.aqa doorbells := by
    intro before host tail after split
    rcases before with - | ⟨first, - | ⟨second, - | ⟨third, before⟩⟩⟩
    · obtain ⟨⟨rfl, rfl⟩, rfl⟩ := by simpa [doorbells] using split
      decide
    · simp [doorbells] at split
    · obtain ⟨rfl, rfl, ⟨rfl, rfl⟩, rfl⟩ := by simpa [doorbells] using split
      decide
    · simp [doorbells] at split
  have inside : ∀ doorbell ∈ doorbells, doorbell.InQueue (sqSizeOf s.aqa) := by
    intro doorbell member
    simp only [doorbells, List.mem_cons, List.not_mem_nil, or_false] at member
    rcases member with rfl | rfl | rfl
    · exact (by decide : (1 : BitVec 32).toNat < sqSizeOf 0x00010003)
    · trivial
    · exact (by decide : (2 : BitVec 32).toNat < sqSizeOf 0x00010003)
  obtain ⟨enabled, last, guest, taken, finished, posted, kept⟩ :=
    nvmeCompletion_noOverrun dma s g 1 (by decide) doorbells inside
  exact ⟨room, enabled, last, guest, taken, finished, posted, kept room⟩

/-- With four submission slots and two completion slots, one doorbell posts three completions that
the host has had no time to consume, and the last one lands on the first. -/
theorem nvmeCompletion_overruns :
    let dma : Dma NvmeMark := DmaPattern.reliable.dma fun _ _ => 0
    let s : EduNvmeState := { EduNvmeState.realized ⟨true⟩ fun _ => 0 with
      aqa := 0x00010003, asq := 0x1000, acq := 0x2000 }
    let g : Guest NvmeMark := ⟨fun _ => 0, []⟩
    let doorbells : List NvmeDoorbell := [.submission id 3]
    (∀ doorbell ∈ doorbells, doorbell.InQueue (sqSizeOf s.aqa)) ∧
    ∃ enabled last guest, eduNvmeWrite dma s g nvmeCc 1 = .ok (enabled, g) ∧
      Execution.run (nvmeAccess dma) (enabled, g) (doorbells.map NvmeDoorbell.write) =
        .ok (last, guest) ∧
      postedSlots g.trace.length guest = [0x2000, 0x2010, 0x2000] ∧
      consumed s.aqa doorbells = 0 ∧
      ¬ NoOverrun s.aqa doorbells (postedSlots g.trace.length guest) := by
  intro dma s g doorbells
  have inside : ∀ doorbell ∈ doorbells, doorbell.InQueue (sqSizeOf s.aqa) := by
    intro doorbell member
    obtain rfl := List.mem_singleton.mp member
    exact (by decide : (3 : BitVec 32).toNat < sqSizeOf 0x00010003)
  obtain ⟨enabled, last, guest, taken, finished, posted⟩ :=
    run_posts dma s g 1 (by decide) doorbells inside
  have slots : postedSlots g.trace.length guest = [0x2000, 0x2010, 0x2000] :=
    posted.trans (by decide)
  refine ⟨inside, enabled, last, guest, taken, finished, slots, rfl, fun kept => ?_⟩
  have bounded := kept.bounded
  rw [slots] at bounded
  exact absurd bounded (by decide)

end EduDevices
