import EduDevices.Library.Execution
import EduDevices.Proof.NvmeFlow

namespace EduDevices

open Execution (Legal)

def EduNvmeState.withControl (s : EduNvmeState) (cc csts : BitVec 32) : EduNvmeState :=
  { s with cc, csts }

/-- Everything of the machine but its control and status registers. -/
def queueView (machine : EduNvmeState × Guest NvmeMark) : EduNvmeState × Guest NvmeMark :=
  (machine.1.withControl 0 0, machine.2)

section Control

variable (dma : Dma NvmeMark) (s : EduNvmeState) (g : Guest NvmeMark) (cc csts : BitVec 32)

theorem nvmeTransfer_control (cmd : NvmeCmd) :
    nvmeTransfer dma (s.withControl cc csts) g cmd =
      ((nvmeTransfer dma s g cmd).1, (nvmeTransfer dma s g cmd).2.1.withControl cc csts,
        (nvmeTransfer dma s g cmd).2.2) := by
  cases cmd.branch with
  | identify identifies =>
      rw [nvmeTransfer_identify _ _ _ identifies, nvmeTransfer_identify _ _ _ identifies]
      split <;> rfl
  | refused moves rejected =>
      rw [nvmeTransfer_refused _ _ _ moves rejected, nvmeTransfer_refused _ _ _ moves rejected]
  | reading reads passed =>
      rw [nvmeTransfer_reading _ _ _ reads passed, nvmeTransfer_reading _ _ _ reads passed]
      rfl
  | writing writes passed =>
      rw [nvmeTransfer_writing _ _ _ writes passed, nvmeTransfer_writing _ _ _ writes passed]
      rfl
  | unknown identifies reads writes =>
      rw [nvmeTransfer_unknown _ _ _ identifies reads writes,
        nvmeTransfer_unknown _ _ _ identifies reads writes]

theorem advanceCqTail_control :
    advanceCqTail (s.withControl cc csts) = (advanceCqTail s).withControl cc csts := by
  unfold advanceCqTail
  dsimp only
  split_ifs <;> first | rfl | contradiction

theorem advanceSqHead_control (sqSize : BitVec 16) :
    advanceSqHead sqSize (s.withControl cc csts) =
      (advanceSqHead sqSize s).withControl cc csts := by
  unfold advanceSqHead
  dsimp only
  split_ifs <;> first | rfl | contradiction

theorem eduNvmeProcessCmd_control (cmd : NvmeCmd) :
    eduNvmeProcessCmd dma (s.withControl cc csts) g cmd =
      ((eduNvmeProcessCmd dma s g cmd).1.withControl cc csts,
        (eduNvmeProcessCmd dma s g cmd).2) := by
  rw [eduNvmeProcessCmd_eq, eduNvmeProcessCmd_eq, nvmeTransfer_control, advanceCqTail_control]
  rfl

theorem sqTurn_control (sqSize : BitVec 16) (cmd : List Byte) :
    sqTurn dma sqSize cmd (s.withControl cc csts) g =
      ((sqTurn dma sqSize cmd s g).1, (sqTurn dma sqSize cmd s g).2.1.withControl cc csts,
        (sqTurn dma sqSize cmd s g).2.2) := by
  rw [sqTurn_eq, sqTurn_eq]
  dsimp only
  rw [eduNvmeProcessCmd_control]
  dsimp only
  rw [advanceSqHead_control]
  rfl

/-- The loop carries the two registers along. -/
theorem sqLoop_control (sqSize : BitVec 16) (turns : Nat) (cmd : List Byte) :
    sqLoop dma sqSize turns cmd (s.withControl cc csts) g =
      (sqLoop dma sqSize turns cmd s g).map fun final => (final.1.withControl cc csts, final.2) := by
  induction turns generalizing cmd s g with
  | zero => rfl
  | succ turns ih =>
      have indices : (s.withControl cc csts).sqHead ≠ (s.withControl cc csts).sqTail ↔
          s.sqHead ≠ s.sqTail := Iff.rfl
      unfold sqLoop
      simp only [indices]
      split
      · rw [sqTurn_control]
        exact ih _ _ _
      · rfl

/-- No handler looks at the two registers. -/
theorem nvmeAccess_control (write : HostWrite) :
    (nvmeAccess dma (s.withControl cc csts, g) write).map queueView =
      (nvmeAccess dma (s, g) write).map queueView := by
  obtain ⟨host, addr, val⟩ := write
  unfold nvmeAccess eduNvmeWrite
  dsimp only
  split
  · split <;> rfl
  · rfl
  · rfl
  · rfl
  · rfl
  · rfl
  · unfold eduNvmeProcessSq
    have rung := sqLoop_control dma { s with sqTail := (val.setWidth 64).setWidth 16 }
      (g.rewrite host) cc csts (((s.aqa &&& (0xFFF : BitVec 32)) + 1).setWidth 16) (2 ^ 16 + 1)
      (stackBuffer dma (g.rewrite host) 64)
    refine (congrArg (Except.map queueView) rung).trans ?_
    cases sqLoop dma (((s.aqa &&& (0xFFF : BitVec 32)) + 1).setWidth 16) (2 ^ 16 + 1)
      (stackBuffer dma (g.rewrite host) 64) { s with sqTail := (val.setWidth 64).setWidth 16 }
      (g.rewrite host) <;> rfl
  · rfl
  · rfl

end Control

/-- Machines that look the same answer every write in the same way. -/
theorem nvmeAccess_view (dma : Dma NvmeMark) {machine other : EduNvmeState × Guest NvmeMark}
    (same : queueView machine = queueView other) (write : HostWrite) :
    (∃ fault, nvmeAccess dma machine write = .error fault ∧
      nvmeAccess dma other write = .error fault) ∨
    ∃ next last, nvmeAccess dma machine write = .ok next ∧
      nvmeAccess dma other write = .ok last ∧ queueView next = queueView last := by
  obtain ⟨s, g⟩ := machine
  obtain ⟨t, guest⟩ := other
  obtain ⟨device, rfl⟩ := Prod.mk.inj same
  have switched : s = t.withControl s.cc s.csts :=
    congrArg (fun view => view.withControl s.cc s.csts) device
  have answers := nvmeAccess_control dma t g s.cc s.csts write
  rw [← switched] at answers
  cases taken : nvmeAccess dma (s, g) write with
  | error fault =>
      cases answered : nvmeAccess dma (t, g) write with
      | error again =>
          rw [taken, answered] at answers
          exact .inl ⟨fault, rfl, answers.symm⟩
      | ok last =>
          rw [taken, answered] at answers
          cases answers
  | ok next =>
      cases answered : nvmeAccess dma (t, g) write with
      | error fault =>
          rw [taken, answered] at answers
          cases answers
      | ok last =>
          rw [taken, answered] at answers
          exact .inr ⟨next, last, rfl, rfl, Except.ok.inj answers⟩

/-- A run with writes to the control register between its own writes. An inserted write keeps the
enable bit and has any other bits. -/
inductive ControlStep where
  | own (write : HostWrite)
  | inserted (bits : BitVec 32)

def ControlStep.write : ControlStep → HostWrite
  | .own write => write
  | .inserted bits => ⟨id, nvmeCc, bits ||| 1⟩

def ControlStep.own? : ControlStep → Option HostWrite
  | .own write => some write
  | .inserted _ => none

theorem ControlStep.filterMap_own (write : HostWrite) (rest : List ControlStep) :
    (own write :: rest).filterMap own? = write :: rest.filterMap own? := rfl

theorem ControlStep.filterMap_inserted (bits : BitVec 32) (rest : List ControlStep) :
    (inserted bits :: rest).filterMap own? = rest.filterMap own? := rfl

/-- The queues are as the enabling of the controller leaves them. -/
structure AtReset (s : EduNvmeState) : Prop where
  sqHead : s.sqHead = 0
  sqTail : s.sqTail = 0
  cqHead : s.cqHead = 0
  cqTail : s.cqTail = 0
  cqPhase : s.cqPhase = 1

theorem inserted_enables (bits : BitVec 32) : (bits ||| 1).setWidth 64 &&& nvmeCcEn ≠ 0 := by
  intro zero
  have low := congrArg (BitVec.getLsbD · 0) zero
  simp at low

/-- An inserted write goes unseen exactly when there is nothing to reset. -/
theorem inserted_unseen_iff (dma : Dma NvmeMark) (machine : EduNvmeState × Guest NvmeMark)
    (bits : BitVec 32) :
    ∃ next, nvmeAccess dma machine (ControlStep.inserted bits).write = .ok next ∧
      (queueView next = queueView machine ↔ AtReset machine.1) := by
  obtain ⟨s, g⟩ := machine
  refine ⟨_, if_pos (inserted_enables bits), ?_⟩
  constructor
  · intro same
    have device := congrArg Prod.fst same
    exact ⟨(congrArg EduNvmeState.sqHead device).symm, (congrArg EduNvmeState.sqTail device).symm,
      (congrArg EduNvmeState.cqHead device).symm, (congrArg EduNvmeState.cqTail device).symm,
      (congrArg EduNvmeState.cqPhase device).symm⟩
  · rintro ⟨sqHead, sqTail, cqHead, cqTail, cqPhase⟩
    obtain ⟨_, _, _, _, _, _, _, _, _, _, _, _⟩ := s
    dsimp only at sqHead sqTail cqHead cqTail cqPhase
    subst sqHead sqTail cqHead cqTail cqPhase
    rfl

/-- Up to every point the one run looks like the other without the inserted writes. -/
def Alike (dma : Dma NvmeMark) (machine other : EduNvmeState × Guest NvmeMark)
    (steps : List ControlStep) : Prop :=
  ∀ before, before <+: steps →
    (Execution.run (nvmeAccess dma) machine (before.map ControlStep.write)).map queueView =
      (Execution.run (nvmeAccess dma) other (before.filterMap ControlStep.own?)).map queueView

theorem forall_prefix_cons {Step : Type} {Holds : List Step → Prop} (first : Step)
    (rest : List Step) : (∀ before, before <+: first :: rest → Holds before) ↔
      Holds [] ∧ ∀ before, before <+: rest → Holds (first :: before) := by
  simp only [List.prefix_cons_iff]
  constructor
  · intro every
    exact ⟨every [] (.inl rfl), fun before inside => every _ (.inr ⟨before, rfl, inside⟩)⟩
  · rintro ⟨empty, longer⟩ before (rfl | ⟨shorter, rfl, inside⟩)
    · exact empty
    · exact longer shorter inside

section Alike

variable {dma : Dma NvmeMark} {machine other next last : EduNvmeState × Guest NvmeMark}
  {rest : List ControlStep}

theorem Alike.start {steps : List ControlStep} (alike : Alike dma machine other steps) :
    queueView machine = queueView other :=
  Except.ok.inj (alike [] List.nil_prefix)

theorem alike_nil (same : queueView machine = queueView other) : Alike dma machine other [] := by
  intro before empty
  obtain rfl := List.prefix_nil.mp empty
  exact congrArg Except.ok same

theorem alike_cons_iff (same : queueView machine = queueView other) (step : ControlStep) :
    Alike dma machine other (step :: rest) ↔ ∀ before, before <+: rest →
      (Execution.run (nvmeAccess dma) machine ((step :: before).map ControlStep.write)).map queueView =
        (Execution.run (nvmeAccess dma) other
          ((step :: before).filterMap ControlStep.own?)).map queueView := by
  rw [Alike, forall_prefix_cons]
  exact and_iff_right (congrArg Except.ok same)

/-- The runs go on together after a write that both answer. -/
theorem alike_own_iff {write : HostWrite} (same : queueView machine = queueView other)
    (taken : nvmeAccess dma machine write = .ok next)
    (answered : nvmeAccess dma other write = .ok last) :
    Alike dma machine other (.own write :: rest) ↔ Alike dma next last rest := by
  rw [alike_cons_iff same]
  apply forall₂_congr
  intro before inside
  rw [List.map_cons, ControlStep.filterMap_own, ControlStep.write,
    Execution.run_cons_of_ok _ taken, Execution.run_cons_of_ok _ answered]

/-- A write that faults ends both runs. -/
theorem alike_own_fault {write : HostWrite} {fault : Fault}
    (same : queueView machine = queueView other)
    (taken : nvmeAccess dma machine write = .error fault)
    (answered : nvmeAccess dma other write = .error fault) :
    Alike dma machine other (.own write :: rest) := by
  rw [alike_cons_iff same]
  intro before inside
  rw [List.map_cons, ControlStep.filterMap_own, ControlStep.write, Execution.run_cons,
    Execution.run_cons, taken, answered]
  rfl

/-- The other run stands still at an inserted write. -/
theorem alike_inserted_iff {bits : BitVec 32} (same : queueView machine = queueView other)
    (taken : nvmeAccess dma machine (ControlStep.inserted bits).write = .ok next) :
    Alike dma machine other (.inserted bits :: rest) ↔ Alike dma next other rest := by
  rw [alike_cons_iff same]
  apply forall₂_congr
  intro before inside
  rw [List.map_cons, Execution.run_cons_of_ok _ taken, ControlStep.filterMap_inserted]

end Alike

/-- The runs are alike as long as each inserted write goes unseen. -/
theorem alike_iff (dma : Dma NvmeMark) {machine other : EduNvmeState × Guest NvmeMark}
    (same : queueView machine = queueView other) (steps : List ControlStep) :
    Alike dma machine other steps ↔
      Legal (fun machine step => ∀ bits, step = .inserted bits → AtReset machine.1)
        (fun machine step => nvmeAccess dma machine step.write) machine steps := by
  induction steps generalizing machine other with
  | nil => exact iff_of_true (alike_nil same) trivial
  | cons step rest ih =>
      cases step with
      | own write =>
          have guarded : ∀ bits, ControlStep.own write = .inserted bits → AtReset machine.1 := by
            intro bits inserted
            cases inserted
          rcases nvmeAccess_view dma same write with
            ⟨fault, taken, answered⟩ | ⟨next, last, taken, answered, alike⟩
          · apply iff_of_true (alike_own_fault same taken answered)
            constructor
            · exact guarded
            · intro after again
              cases taken.symm.trans again
          · rw [alike_own_iff same taken answered, ih alike]
            constructor
            · intro later
              constructor
              · exact guarded
              · intro after again
                obtain rfl := Except.ok.inj (taken.symm.trans again)
                exact later
            · intro legal
              exact legal.2 next taken
      | inserted bits =>
          obtain ⟨next, taken, unseen⟩ := inserted_unseen_iff dma machine bits
          rw [alike_inserted_iff same taken]
          constructor
          · intro alike
            constructor
            · exact fun _ _ => unseen.mp (alike.start.trans same.symm)
            · intro after again
              obtain rfl := Except.ok.inj (taken.symm.trans again)
              exact (ih alike.start).mp alike
          · intro legal
            have seen := (unseen.mpr (legal.1 bits rfl)).trans same
            exact (ih seen).mpr (legal.2 next taken)

/-- Writes to the control register between the writes of a run go unseen exactly when each of them
finds the queues as it leaves them. -/
theorem control_transparent_iff (dma : Dma NvmeMark) (s : EduNvmeState) (g : Guest NvmeMark)
    (steps : List ControlStep) :
    Alike dma (s, g) (s, g) steps ↔
      Legal (fun machine step => ∀ bits, step = .inserted bits → AtReset machine.1)
        (fun machine step => nvmeAccess dma machine step.write) (s, g) steps :=
  alike_iff dma rfl steps

/-- The control register is written again after the first command, which is then executed again. -/
theorem control_rewinds :
    let dma : Dma NvmeMark := DmaPattern.reliable.dma fun _ _ => 0
    let s : EduNvmeState := { EduNvmeState.realized ⟨true⟩ fun _ => 0 with
      aqa := 0x00010001, asq := 0x1000, acq := 0x2000 }
    let g : Guest NvmeMark := ⟨fun _ => 0, []⟩
    let steps : List ControlStep := [.own ⟨id, nvmeCc, 1⟩, .own ⟨id, nvmeSq0tdbl, 1⟩, .inserted 0,
      .own ⟨id, nvmeSq0tdbl, 1⟩]
    ((Execution.run (nvmeAccess dma) (s, g) (steps.map ControlStep.write)).map fun machine =>
        postedSlots 0 machine.2).toOption = some [0x2000, 0x2000] ∧
      ((Execution.run (nvmeAccess dma) (s, g) (steps.filterMap ControlStep.own?)).map
        fun machine => postedSlots 0 machine.2).toOption = some [0x2000] ∧
      ¬ Alike dma (s, g) (s, g) steps := by
  intro dma s g steps
  have full : ((Execution.run (nvmeAccess dma) (s, g) (steps.map ControlStep.write)).map
      fun machine => postedSlots 0 machine.2).toOption = some [0x2000, 0x2000] := by decide +kernel
  have own : ((Execution.run (nvmeAccess dma) (s, g) (steps.filterMap ControlStep.own?)).map
      fun machine => postedSlots 0 machine.2).toOption = some [0x2000] := by decide +kernel
  have unviewed (outcome : Except Fault (EduNvmeState × Guest NvmeMark)) :
      ((outcome.map queueView).map fun machine => postedSlots 0 machine.2).toOption =
        (outcome.map fun machine => postedSlots 0 machine.2).toOption := by
    cases outcome <;> rfl
  refine ⟨full, own, ?_⟩
  intro alike
  have same := congrArg (fun outcome => (outcome.map fun machine =>
    postedSlots 0 machine.2).toOption) (alike steps List.prefix_rfl)
  rw [unviewed, unviewed, full, own] at same
  exact absurd same (by decide)

end EduDevices
