import EduDevices.Proof.NvmeFlow

namespace EduDevices

open CircularQueue (slotAt)

/-- A posted completion with its slot and the base of its queue at that time. -/
structure Posting where
  base : Address
  slot : Address
  cqe : NvmeCqe

def NvmeMark.posting (base : Address) : NvmeMark → Option Posting
  | .completion slot cqe => some ⟨base, slot, cqe⟩
  | .command _ => none

def completions (base : Address) (events : List (Event NvmeMark)) : List Posting :=
  (events.filterMap Event.marked).filterMap (NvmeMark.posting base)

theorem completions_append (base : Address) (first second : List (Event NvmeMark)) :
    completions base (first ++ second) = completions base first ++ completions base second := by
  rw [completions, List.filterMap_append, List.filterMap_append]
  rfl

/-- The completions that a run posts. A write that does not return ends the run, and its processing
is followed for the given number of turns. -/
def postings (dma : Dma NvmeMark) (turns : Nat) :
    EduNvmeState × Guest NvmeMark → List HostWrite → List Posting
  | _, [] => []
  | (s, g), write :: rest =>
      match nvmeAccess dma (s, g) write with
      | .ok next =>
          completions s.acq (next.2.trace.drop g.trace.length) ++ postings dma turns next rest
      | .error _ =>
          let reached := rungTurns dma turns s (g.rewrite write.host) (write.val.setWidth 64)
          completions s.acq (reached.2.trace.drop g.trace.length)

/-- The completion of an index goes to its slot modulo the size, and its phase starts as one and
changes with every pass through the queue. -/
def PhaseLaw (size index : Nat) (posting : Posting) : Prop :=
  posting.slot = slotAt posting.base 16 size index ∧
    posting.cqe.status.getLsbD 8 = decide (index / size % 2 = 0)

/-- The phase of the device does not change in a queue of `2 ^ 16` slots. -/
def devicePhase (size index : Nat) : Bool := decide (size = 65536 ∨ index / size % 2 = 0)

def Posted (size index : Nat) (posting : Posting) : Prop :=
  posting.slot = slotAt posting.base 16 size index ∧
    posting.cqe.status.getLsbD 8 = devicePhase size index

def PostedFrom (size first : Nat) (posted : List Posting) : Prop :=
  ∀ index posting, posted[index]? = some posting → Posted size (first + index) posting

theorem PostedFrom.none (size first : Nat) : PostedFrom size first [] := by
  intro index posting found
  cases found

theorem PostedFrom.append {size first : Nat} {before after : List Posting}
    (early : PostedFrom size first before)
    (late : PostedFrom size (first + before.length) after) :
    PostedFrom size first (before ++ after) := by
  intro index posting found
  rcases Nat.lt_or_ge index before.length with inside | beyond
  · rw [List.getElem?_append_left inside] at found
    exact early index posting found
  · rw [List.getElem?_append_right beyond] at found
    have later := late _ posting found
    rwa [Nat.add_assoc, Nat.add_sub_cancel' beyond] at later

/-- The completion queue, whose attributes are held, after a number of postings. -/
structure PhaseAt (held : BitVec 32) (index : Nat) (s : EduNvmeState) : Prop where
  aqa : s.aqa = held
  slot : s.cqTail.toNat = index % cqSizeOf held
  phase : s.cqPhase = if devicePhase (cqSizeOf held) index then 1 else 0

theorem devicePhase_succ {size : Nat} (positive : 0 < size) (index : Nat) :
    devicePhase size (index + 1) =
      if size ≠ 65536 ∧ index % size + 1 = size then !devicePhase size index
      else devicePhase size index := by
  have passes : size ∣ index + 1 ↔ index % size + 1 = size := by
    rw [Nat.dvd_iff_mod_eq_zero, ← Nat.mod_add_mod, succ_mod (Nat.mod_lt _ positive)]
    have := Nat.mod_lt index positive
    split <;> omega
  unfold devicePhase
  rw [Nat.succ_div]
  simp only [passes]
  by_cases largest : size = 65536
  · simp [largest]
  · by_cases last : index % size + 1 = size
    · simp only [largest, last, ne_eq, not_false_eq_true, and_self, if_true, false_or]
      rw [← decide_not]
      apply decide_eq_decide.mpr
      omega
    · simp [largest, last]

theorem advanceCqTail_phase (s : EduNvmeState) (inside : s.cqTail.toNat < cqSizeOf s.aqa) :
    (advanceCqTail s).cqPhase =
      if cqSizeOf s.aqa ≠ 65536 ∧ s.cqTail.toNat + 1 = cqSizeOf s.aqa then s.cqPhase ^^^ 1
      else s.cqPhase := by
  rw [advanceCqTail_wrap s inside]
  split <;> rfl

/-- A posting moves the queue on by one slot and the phase with it. -/
theorem PhaseAt.advance {held : BitVec 32} {index : Nat} {s : EduNvmeState}
    (standing : PhaseAt held index s) (sqSize : BitVec 16) (storage : Memory) :
    PhaseAt held (index + 1) (advanceSqHead sqSize (advanceCqTail { s with storage })) := by
  have positive : 0 < cqSizeOf held := Nat.succ_pos _
  have inside : s.cqTail.toNat < cqSizeOf s.aqa := by
    rw [standing.aqa, standing.slot]
    exact Nat.mod_lt _ positive
  have slot := toNat_advanceCqTail { s with storage } inside
  have phase := advanceCqTail_phase { s with storage } inside
  dsimp only at slot phase
  rw [advanceSqHead_eq, advanceCqTail_eq]
  refine ⟨standing.aqa, ?_, ?_⟩
  · dsimp only
    rw [slot, standing.aqa, standing.slot, Nat.mod_add_mod]
  · dsimp only
    rw [phase, standing.aqa, standing.slot, standing.phase, devicePhase_succ positive]
    split
    · cases devicePhase (cqSizeOf held) index <;> decide
    · rfl

/-- The completion for the next command is posted where and as the index says. -/
theorem PhaseAt.posted {held : BitVec 32} {index : Nat} {s : EduNvmeState}
    (standing : PhaseAt held index s) (cmd : NvmeCmd) {status : BitVec 16}
    (clear : status.getLsbD 8 = false) :
    Posted (cqSizeOf held) index ⟨s.acq, s.cqeAddr, s.completionOf cmd status⟩ := by
  constructor
  · exact slotAt_index s.acq 16 _ index s.cqTail standing.slot
  · rw [EduNvmeState.completionOf, standing.phase]
    dsimp only
    rw [BitVec.getLsbD_or, clear, Bool.false_or]
    cases devicePhase (cqSizeOf held) index <;> decide

/-- The trace grew by events whose completions are those of the next indices. -/
def PostsFrom (held : BitVec 32) (index : Nat) (base : Address) (g : Guest NvmeMark)
    (next : EduNvmeState × Guest NvmeMark) : Prop :=
  ∃ events, next.2.trace = g.trace ++ events ∧
    PostedFrom (cqSizeOf held) index (completions base events) ∧
    PhaseAt held (index + (completions base events).length) next.1

theorem PostsFrom.none {held : BitVec 32} {index : Nat} {base : Address} {g : Guest NvmeMark}
    {next : EduNvmeState × Guest NvmeMark} (same : next.2.trace = g.trace)
    (standing : PhaseAt held index next.1) : PostsFrom held index base g next :=
  ⟨[], by rw [same, List.append_nil], .none _ _, standing⟩

theorem PostsFrom.trans {held : BitVec 32} {index : Nat} {base : Address} {g middle : Guest NvmeMark}
    {next : EduNvmeState × Guest NvmeMark} {first : List (Event NvmeMark)}
    (grown : middle.trace = g.trace ++ first)
    (early : PostedFrom (cqSizeOf held) index (completions base first))
    (late : PostsFrom held (index + (completions base first).length) base middle next) :
    PostsFrom held index base g next := by
  obtain ⟨second, again, posted, standing⟩ := late
  refine ⟨first ++ second, ?_, ?_, ?_⟩
  · rw [again, grown, List.append_assoc]
  · rw [completions_append]
    exact early.append posted
  · rw [completions_append, List.length_append, ← Nat.add_assoc]
    exact standing

section Runs

variable (dma : Dma NvmeMark) {held : BitVec 32} {index : Nat} {s : EduNvmeState}
  (standing : PhaseAt held index s)

include standing

/-- A turn posts one completion, which has the next index. -/
theorem sqTurn_posts (sqSize : BitVec 16) (cmd : List Byte) (g : Guest NvmeMark) :
    ∃ events posting, (sqTurn dma sqSize cmd s g).2.2.trace = g.trace ++ events ∧
      completions s.acq events = [posting] ∧ Posted (cqSizeOf held) index posting ∧
      PhaseAt held (index + 1) (sqTurn dma sqSize cmd s g).2.1 ∧
      (sqTurn dma sqSize cmd s g).2.1.acq = s.acq := by
  obtain ⟨storage, moved, status, posted, bytes, fetch, -, move, clear, -, device, trace⟩ :=
    sqTurn_spec dma sqSize cmd s g
  refine ⟨_, ⟨s.acq, s.cqeAddr, s.completionOf (NvmeCmd.decode bytes) status⟩, trace, ?_,
    standing.posted _ clear, ?_, ?_⟩
  · rw [completions, turn_marked move]
    rfl
  · rw [device]
    exact standing.advance sqSize storage
  · rw [device, advanceSqHead_eq, advanceCqTail_eq]

theorem sqTurns_posts (sqSize : BitVec 16) (turns : Nat) (cmd : List Byte) (g : Guest NvmeMark) :
    PostsFrom held index s.acq g (sqTurns dma sqSize turns cmd s g) := by
  induction turns generalizing index s cmd g with
  | zero => exact .none rfl standing
  | succ turns ih =>
      unfold sqTurns
      split
      · obtain ⟨events, posting, grown, single, posted, moved, base⟩ :=
          sqTurn_posts dma standing sqSize cmd g
        have early : PostedFrom (cqSizeOf held) index (completions s.acq events) := by
          intro position other found
          rw [single, List.getElem?_singleton] at found
          split at found
          · next first =>
              obtain rfl := Option.some.inj found
              rwa [first, Nat.add_zero]
          · cases found
        have late := ih moved (sqTurn dma sqSize cmd s g).1 (sqTurn dma sqSize cmd s g).2.2
        rw [base] at late
        refine .trans grown early ?_
        rw [single]
        exact late
      · exact .none rfl standing

theorem rungTurns_posts (turns : Nat) (g : Guest NvmeMark) (val : BitVec 64) :
    PostsFrom held index s.acq g (rungTurns dma turns s g val) := by
  have rung : PhaseAt held index { s with sqTail := val.setWidth 16 } :=
    ⟨standing.aqa, standing.slot, standing.phase⟩
  exact sqTurns_posts dma rung _ turns _ g

end Runs

/-- The write neither resizes the queues nor starts them over. -/
def HostWrite.Holds (write : HostWrite) : Prop :=
  write.addr ≠ nvmeAqa ∧ ¬ (write.addr = nvmeCc ∧ write.val.setWidth 64 &&& nvmeCcEn ≠ 0)

theorem nvmeAccess_posts (dma : Dma NvmeMark) {held : BitVec 32} {index : Nat} {s : EduNvmeState}
    (standing : PhaseAt held index s) (g : Guest NvmeMark) {write : HostWrite}
    (holds : write.Holds) {next : EduNvmeState × Guest NvmeMark}
    (taken : nvmeAccess dma (s, g) write = .ok next) : PostsFrom held index s.acq g next := by
  rcases nvmeAccess_cases taken with ⟨restarts, -⟩ | ⟨resizes, -⟩ | ⟨-, rfl⟩ | ⟨quiet, same⟩
  · exact absurd restarts holds.2
  · exact absurd resizes holds.1
  · exact rungTurns_posts dma standing (2 ^ 16 + 1) (g.rewrite write.host) (write.val.setWidth 64)
  · have untouched : next.2.trace = g.trace := by rw [quiet, Guest.rewrite_trace]
    apply PostsFrom.none untouched
    constructor
    · exact same.aqa.trans standing.aqa
    · rw [same.cqTail]
      exact standing.slot
    · exact same.cqPhase.trans standing.phase

/-- Whatever is written, the completions of a run are those of the next indices. -/
theorem postings_from (dma : Dma NvmeMark) (turns : Nat) {held : BitVec 32} {index : Nat}
    {s : EduNvmeState} (standing : PhaseAt held index s) (g : Guest NvmeMark)
    (writes : List HostWrite) (holds : ∀ write ∈ writes, write.Holds) :
    PostedFrom (cqSizeOf held) index (postings dma turns (s, g) writes) := by
  induction writes generalizing index s g with
  | nil => exact .none _ _
  | cons write rest ih =>
      have first := holds write List.mem_cons_self
      unfold postings
      split
      · next next taken =>
          obtain ⟨events, grown, posted, later⟩ := nvmeAccess_posts dma standing g first taken
          rw [grown, List.drop_left]
          exact posted.append (ih later next.2 fun other member =>
            holds other (List.mem_cons_of_mem write member))
      · obtain ⟨events, grown, posted, -⟩ := rungTurns_posts dma standing turns
          (g.rewrite write.host) (write.val.setWidth 64)
        dsimp only
        rw [grown, Guest.rewrite_trace, List.drop_left]
        exact posted

theorem completions_slots (base : Address) (events : List (Event NvmeMark)) :
    (completions base events).map Posting.slot =
      (events.filterMap Event.marked).filterMap NvmeMark.posted := by
  rw [completions, List.map_filterMap]
  congr 1
  funext point
  cases point <;> rfl

/-- A run that returns has posted into the slots that its trace shows. -/
theorem postings_slots (dma : Dma NvmeMark) (turns : Nat) {held : BitVec 32} {index : Nat}
    {s : EduNvmeState} (standing : PhaseAt held index s) (g : Guest NvmeMark)
    (writes : List HostWrite) (holds : ∀ write ∈ writes, write.Holds)
    {final : EduNvmeState × Guest NvmeMark}
    (finished : Execution.run (nvmeAccess dma) (s, g) writes = .ok final) :
    ∃ later, final.2.trace = g.trace ++ later ∧
      (postings dma turns (s, g) writes).map Posting.slot =
        (later.filterMap Event.marked).filterMap NvmeMark.posted := by
  induction writes generalizing index s g with
  | nil =>
      obtain rfl := Except.ok.inj finished
      exact ⟨[], (List.append_nil _).symm, rfl⟩
  | cons write rest ih =>
      obtain ⟨next, taken, finished⟩ := (Execution.run_cons_ok_iff _ _ _ _ _).mp finished
      obtain ⟨events, grown, -, later⟩ :=
        nvmeAccess_posts dma standing g (holds write List.mem_cons_self) taken
      obtain ⟨others, again, slots⟩ := ih later next.2
        (fun other member => holds other (List.mem_cons_of_mem write member)) finished
      refine ⟨events ++ others, ?_, ?_⟩
      · rw [again, grown, List.append_assoc]
      · unfold postings
        rw [taken]
        dsimp only
        rw [grown, List.drop_left, List.map_append, slots, completions_slots, List.filterMap_append,
          List.filterMap_append]

/-- Enabling the controller starts the queue over, whatever its size. -/
theorem enable_phase (dma : Dma NvmeMark) (s : EduNvmeState) (g : Guest NvmeMark) (val : BitVec 64)
    (enables : val &&& nvmeCcEn ≠ 0) :
    ∃ enabled, eduNvmeWrite dma s g nvmeCc val = .ok (enabled, g) ∧ PhaseAt s.aqa 0 enabled := by
  refine ⟨_, if_pos enables, rfl, (Nat.zero_mod _).symm, ?_⟩
  rw [devicePhase, Nat.zero_div]
  simp

/-- The completions of every run obey the phase law, except that in a queue of `2 ^ 16` slots those
of every second pass do not. -/
theorem phaseLaw_iff (dma : Dma NvmeMark) (s : EduNvmeState) (g : Guest NvmeMark) (val : BitVec 64)
    (enables : val &&& nvmeCcEn ≠ 0) (writes : List HostWrite)
    (holds : ∀ write ∈ writes, write.Holds) (turns : Nat) :
    ∃ enabled, eduNvmeWrite dma s g nvmeCc val = .ok (enabled, g) ∧
      ∀ index posting, (postings dma turns (enabled, g) writes)[index]? = some posting →
        (PhaseLaw (cqSizeOf s.aqa) index posting ↔
          cqSizeOf s.aqa ≠ 65536 ∨ index / 65536 % 2 = 0) := by
  obtain ⟨enabled, taken, standing⟩ := enable_phase dma s g val enables
  refine ⟨enabled, taken, ?_⟩
  intro index posting found
  obtain ⟨slot, phase⟩ := postings_from dma turns standing g writes holds index posting found
  rw [Nat.zero_add] at slot phase
  rw [PhaseLaw, phase, devicePhase, and_iff_right slot, decide_eq_decide]
  by_cases largest : cqSizeOf s.aqa = 65536
  · simp [largest]
  · simp [largest]

/-- The completion queue has two slots, and a doorbell beyond the submission queue never returns. -/
theorem phaseLaw_iff_endless :
    let dma : Dma NvmeMark := DmaPattern.reliable.dma fun _ _ => 0
    let s : EduNvmeState := { EduNvmeState.realized ⟨true⟩ fun _ => 0 with
      aqa := 0x00010001, asq := 0x1000, acq := 0x2000 }
    let g : Guest NvmeMark := ⟨fun address => address.setWidth 8, []⟩
    ∃ enabled, eduNvmeWrite dma s g nvmeCc 1 = .ok (enabled, g) ∧
      ∀ index posting, (postings dma 100 (enabled, g) [⟨id, nvmeSq0tdbl, 9⟩])[index]? =
          some posting →
        (PhaseLaw (cqSizeOf s.aqa) index posting ↔
          cqSizeOf s.aqa ≠ 65536 ∨ index / 65536 % 2 = 0) := by
  intro dma s g
  refine phaseLaw_iff dma s g 1 (by decide) [⟨id, nvmeSq0tdbl, 9⟩] ?_ 100
  intro write member
  obtain rfl := List.mem_singleton.mp member
  exact ⟨by decide, by decide⟩

/-- Each of these doorbells hands over all slots but one of a submission queue of 4096. -/
def fillingDoorbells : List NvmeDoorbell :=
  (List.range 17).map fun round => .submission id (BitVec.ofNat 32 (4095 - round))

theorem fillingDoorbells_holds : ∀ write ∈ fillingDoorbells.map NvmeDoorbell.write, write.Holds := by
  intro write member
  obtain ⟨doorbell, listed, rfl⟩ := List.mem_map.mp member
  obtain ⟨round, -, rfl⟩ := List.mem_map.mp listed
  exact ⟨(by decide : nvmeSq0tdbl ≠ nvmeAqa), fun control =>
    absurd control.1 (by decide : nvmeSq0tdbl ≠ nvmeCc)⟩

/-- After `2 ^ 16` completions the first slot is used again with the same phase. -/
theorem phaseLaw_fails :
    let dma : Dma NvmeMark := DmaPattern.reliable.dma fun _ _ => 0
    let s : EduNvmeState := { EduNvmeState.realized ⟨true⟩ fun _ => 0 with
      aqa := 0xFFFF0FFF, asq := 0x100000, acq := 0x200000 }
    let g : Guest NvmeMark := ⟨fun _ => 0, []⟩
    let writes := fillingDoorbells.map NvmeDoorbell.write
    (∀ write ∈ writes, write.Holds) ∧
    ∃ enabled posting, eduNvmeWrite dma s g nvmeCc 1 = .ok (enabled, g) ∧
      (postings dma 0 (enabled, g) writes)[65536]? = some posting ∧
      ¬ PhaseLaw (cqSizeOf s.aqa) 65536 posting := by
  intro dma s g writes
  have inside : ∀ doorbell ∈ fillingDoorbells, doorbell.InQueue (sqSizeOf s.aqa) := by
    intro doorbell listed
    obtain ⟨round, -, rfl⟩ := List.mem_map.mp listed
    have size : sqSizeOf s.aqa = 4096 := by decide
    change (BitVec.ofNat 32 (4095 - round)).toNat < sqSizeOf s.aqa
    rw [size, BitVec.toNat_ofNat]
    omega
  have holds := fillingDoorbells_holds
  obtain ⟨enabled, last, guest, taken, finished, posted⟩ :=
    run_posts dma s g 1 (by decide) fillingDoorbells inside
  obtain ⟨same, again, standing⟩ := enable_phase dma s g 1 (by decide)
  obtain ⟨rfl, -⟩ := Prod.mk.inj (Except.ok.inj (again.symm.trans taken))
  obtain ⟨later, trace, slots⟩ := postings_slots dma 0 standing g writes holds finished
  have total : (postings dma 0 (same, g) writes).length = 69615 := by
    have counted := congrArg List.length slots
    rw [postedSlots, trace, List.drop_left] at posted
    rw [List.length_map, posted, List.length_map, List.length_range] at counted
    rw [counted]
    decide
  have found := List.getElem?_eq_getElem (l := postings dma 0 (same, g) writes) (i := 65536)
    (by omega)
  refine ⟨holds, same, _, taken, found, ?_⟩
  rintro ⟨-, phase⟩
  obtain ⟨-, device⟩ := postings_from dma 0 standing g writes holds 65536 _ found
  rw [phase] at device
  exact absurd device (by decide)

end EduDevices
