import EduDevices.Library.Execution

namespace EduDevices.RegisterFile

open Execution (run run_cons_ok_iff)

section Writes

variable {Offset Word : Type*} [DecidableEq Offset] (stored : Offset → Word → Option Word)

/-- A write reaches the register at its offset only, and leaves that as well if it is not stored. -/
def put (file : Offset → Word) (write : Offset × Word) (offset : Offset) : Word :=
  if offset = write.1 then (stored offset write.2).getD (file offset) else file offset

/-- The word that the writes leave at an offset, if they store one there. -/
def lastStored (offset : Offset) : List (Offset × Word) → Option Word
  | [] => none
  | write :: rest =>
      (lastStored offset rest).or (if offset = write.1 then stored offset write.2 else none)

variable {stored}

theorem put_at (file : Offset → Word) (offset : Offset) (word : Word) :
    put stored file (offset, word) offset = (stored offset word).getD (file offset) :=
  if_pos rfl

theorem put_other (file : Offset → Word) {write : Offset × Word} {offset : Offset}
    (other : offset ≠ write.1) : put stored file write offset = file offset :=
  if_neg other

theorem put_unstored (file : Offset → Word) {write : Offset × Word}
    (refused : stored write.1 write.2 = none) (offset : Offset) :
    put stored file write offset = file offset := by
  unfold put
  split
  next hit => rw [hit, refused, Option.getD_none]
  next => rfl

theorem put_fixed (file : Offset → Word) (write : Offset × Word) {offset : Offset}
    (fixed : ∀ word, stored offset word = none) : put stored file write offset = file offset := by
  rw [put, fixed, Option.getD_none, ite_self]

theorem put_kept (file : Offset → Word) (write : Offset × Word) {offset : Offset}
    (kept : ∀ word, stored offset word = some word) :
    put stored file write offset = if write.1 = offset then write.2 else file offset := by
  rw [put, kept, Option.getD_some]
  simp only [eq_comm]

/-- The registers of a part of the device are a file of their own. -/
theorem put_embed {Inner : Type*} [DecidableEq Inner] {embed : Inner → Offset}
    (injective : Function.Injective embed) (file : Offset → Word) (target offset : Inner)
    (word : Word) :
    put stored file (embed target, word) (embed offset) =
      put (fun inner => stored (embed inner)) (fun inner => file (embed inner)) (target, word)
        offset := by
  rw [put, put]
  simp only [injective.eq_iff]

theorem getD_lastStored_cons (file : Offset → Word) (write : Offset × Word)
    (rest : List (Offset × Word)) (offset : Offset) :
    (lastStored stored offset (write :: rest)).getD (file offset) =
      (lastStored stored offset rest).getD (put stored file write offset) := by
  rw [lastStored, put]
  cases lastStored stored offset rest with
  | some word => rfl
  | none => split <;> rfl

end Writes

/-- A device whose steps treat some of its registers as a file treats them so in every run. -/
theorem run_reads {Offset Word State Input Fault : Type*} [DecidableEq Offset]
    {stored : Offset → Word → Option Word} {step : State → Input → Except Fault State}
    (read : State → Offset → Word) (target : Input → Offset × Word) {still : Offset → Prop}
    (puts : ∀ state input next, step state input = .ok next → ∀ offset, still offset →
      read next offset = put stored (read state) (target input) offset)
    {state final : State} (inputs : List Input)
    (finished : run step state inputs = .ok final) {offset : Offset} (kept : still offset) :
    read final offset =
      (lastStored stored offset (inputs.map target)).getD (read state offset) := by
  induction inputs generalizing state with
  | nil =>
      obtain rfl := Except.ok.inj finished
      rfl
  | cons input rest ih =>
      obtain ⟨next, taken, finished⟩ := (run_cons_ok_iff step state final input rest).mp finished
      rw [List.map_cons, getD_lastStored_cons, ih finished,
        puts state input next taken offset kept]

end EduDevices.RegisterFile
