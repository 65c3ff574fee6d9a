import Mathlib.Tactic

namespace EduDevices

/-- A disk is an array of blocks of cells. -/
abbrev Disk (Cell : Type*) (count size : Nat) := Fin count → Fin size → Cell

/-- A write replaces consecutive blocks of a disk, on which they lie. -/
structure BlockWrite (Cell : Type*) (count size : Nat) where
  lba : Nat
  nlb : Nat
  data : List Cell
  whole : data.length = nlb * size
  fits : lba + nlb ≤ count

variable {Cell : Type*} {count size : Nat}

def BlockWrite.Covers (write : BlockWrite Cell count size) (block : Nat) : Prop :=
  write.lba ≤ block ∧ block < write.lba + write.nlb

instance (write : BlockWrite Cell count size) (block : Nat) : Decidable (write.Covers block) :=
  inferInstanceAs (Decidable (_ ∧ _))

/-- The cell of a block lies among the cells of a range of blocks. -/
theorem cell_lt {index nlb cell : Nat} (inside : index < nlb) (small : cell < size) :
    index * size + cell < nlb * size := by
  have next : (index + 1) * size ≤ nlb * size := Nat.mul_le_mul_right size inside
  rw [Nat.succ_mul] at next
  omega

/-- The new contents of a block that a write covers. -/
def BlockWrite.block (write : BlockWrite Cell count size) (block : Nat)
    (covers : write.Covers block) : Fin size → Cell := fun cell =>
  write.data.get ⟨(block - write.lba) * size + cell, by
    have inside : block - write.lba < write.nlb := by
      have := covers.1
      have := covers.2
      omega
    rw [write.whole]
    exact cell_lt inside cell.isLt⟩

namespace Disk

/-- A write replaces exactly the blocks that it covers; any other command changes nothing. -/
def perform (disk : Disk Cell count size) : Option (BlockWrite Cell count size) → Disk Cell count size
  | none => disk
  | some write => fun block =>
      if covers : write.Covers block then write.block block covers else disk block

/-- The cells of consecutive blocks, in order. -/
def contents (disk : Disk Cell count size) (lba nlb : Nat) (fits : lba + nlb ≤ count) :
    List Cell :=
  List.ofFn fun cell : Fin (nlb * size) =>
    disk ⟨lba + cell.divNat, by have := cell.divNat.isLt; omega⟩ cell.modNat

@[simp] theorem length_contents (disk : Disk Cell count size) (lba nlb : Nat)
    (fits : lba + nlb ≤ count) : (disk.contents lba nlb fits).length = nlb * size := by
  simp [contents]

theorem perform_uncovered (disk : Disk Cell count size)
    (write : Option (BlockWrite Cell count size)) (block : Fin count)
    (uncovered : ∀ known ∈ write, ¬ known.Covers block) :
    disk.perform write block = disk block := by
  cases write with
  | none => rfl
  | some write => exact dif_neg (uncovered write rfl)

/-- The last write that covers a block gives its contents. -/
theorem foldl_perform_covered (disk : Disk Cell count size)
    (before after : List (Option (BlockWrite Cell count size)))
    (write : BlockWrite Cell count size) (block : Fin count) (covers : write.Covers block)
    (uncovered : ∀ later ∈ after, ∀ known ∈ later, ¬ known.Covers block) :
    (before ++ some write :: after).foldl perform disk block = write.block block covers := by
  rw [List.foldl_append, List.foldl_cons]
  have written : (before.foldl perform disk).perform (some write) block =
      write.block block covers := dif_pos covers
  revert written
  generalize (before.foldl perform disk).perform (some write) = current
  intro written
  induction after generalizing current with
  | nil => exact written
  | cons later rest ih =>
      refine ih (fun other member => uncovered other (List.mem_cons_of_mem _ member)) _ ?_
      rw [perform_uncovered current later block (uncovered later List.mem_cons_self)]
      exact written

end Disk

end EduDevices
