import EduDevices.Library.Cyclic
import EduDevices.Library.Memory

namespace EduDevices

namespace CircularQueue

/-- The slot of a free-running position in a queue of `size` slots. -/
def slotAt (base : Address) (stride size position : Nat) : Address :=
  base + BitVec.ofNat 64 (stride * (position % size))

/-- From a position on, the slots hold the encodings of the entries. -/
def Holds {Entry : Type*} (encode : Entry → List Byte) (memory : Memory) (base : Address)
    (stride size first : Nat) (entries : List Entry) : Prop :=
  ∀ index (inside : index < entries.length),
    memory.read (slotAt base stride size (first + index)) stride = encode entries[index]

section Layout

variable {base : Address} {stride size : Nat}

/-- The bytes of a slot lie in the queue. -/
theorem within_queue {position index : Nat} (inside : index < stride) (positive : 0 < size) :
    Within base (stride * size) (slotAt base stride size position + BitVec.ofNat 64 index) := by
  have slot : position % size < size := Nat.mod_lt _ positive
  have last : stride * (position % size) + stride ≤ stride * size := by
    rw [← Nat.mul_succ]
    exact Nat.mul_le_mul_left stride slot
  rw [slotAt, BitVec.add_assoc, ← BitVec.ofNat_add]
  exact within_add base (by omega)

variable (fits : stride * size ≤ 2 ^ 64)

include fits

/-- Positions in different slots have different addresses. -/
theorem slotAt_eq_iff (wide : 0 < stride) (positive : 0 < size) (position other : Nat) :
    slotAt base stride size position = slotAt base stride size other ↔
      position % size = other % size := by
  have bound (which : Nat) : stride * (which % size) < 2 ^ 64 :=
    lt_of_lt_of_le (Nat.mul_lt_mul_of_pos_left (Nat.mod_lt _ positive) wide) fits
  constructor
  · intro same
    have offsets := congrArg BitVec.toNat (BitVec.add_right_inj base |>.mp same)
    rw [BitVec.toNat_ofNat, BitVec.toNat_ofNat, Nat.mod_eq_of_lt (bound position),
      Nat.mod_eq_of_lt (bound other)] at offsets
    exact Nat.eq_of_mul_eq_mul_left wide offsets
  · intro same
    rw [slotAt, slotAt, same]

/-- The bytes of one slot lie outside every part of another slot. -/
theorem outside_other {position other index start length : Nat} (inside : index < stride)
    (positive : 0 < size) (part : start + length ≤ stride)
    (different : position % size ≠ other % size) :
    ¬ Within (slotAt base stride size other + BitVec.ofNat 64 start) length
      (slotAt base stride size position + BitVec.ofNat 64 index) := by
  have last (which : Nat) : stride * (which % size) + stride ≤ stride * size := by
    rw [← Nat.mul_succ]
    exact Nat.mul_le_mul_left stride (Nat.mod_lt _ positive)
  have lastOther := last other
  have lastPosition := last position
  rw [slotAt, slotAt, BitVec.add_assoc, BitVec.add_assoc, ← BitVec.ofNat_add, ← BitVec.ofNat_add,
    within_offset_iff base _ _ _ (by omega) (by omega)]
  rcases Nat.lt_or_gt_of_ne different with before | after
  · have apart : stride * (position % size) + stride ≤ stride * (other % size) := by
      rw [← Nat.mul_succ]
      exact Nat.mul_le_mul_left stride before
    omega
  · have apart : stride * (other % size) + stride ≤ stride * (position % size) := by
      rw [← Nat.mul_succ]
      exact Nat.mul_le_mul_left stride after
    omega

end Layout

section Contents

variable {Entry : Type*} {encode : Entry → List Byte} {memory : Memory} {base : Address}
  {stride size first : Nat} {entries : List Entry}

/-- The queue holds the same entries as long as the bytes of their slots stay. -/
theorem Holds.congr {other : Memory} (holds : Holds encode memory base stride size first entries)
    (same : ∀ index, index < entries.length → ∀ byte, byte < stride →
      other (slotAt base stride size (first + index) + BitVec.ofNat 64 byte) =
        memory (slotAt base stride size (first + index) + BitVec.ofNat 64 byte)) :
    Holds encode other base stride size first entries := by
  intro index inside
  rw [← holds index inside]
  exact Memory.read_congr (same index inside)

/-- The slot after the oldest entry starts the rest. -/
theorem Holds.tail {entry : Entry} (holds : Holds encode memory base stride size first (entry :: entries)) :
    Holds encode memory base stride size (first + 1) entries := by
  intro index inside
  have later := holds (index + 1) (Nat.succ_lt_succ inside)
  rw [← Nat.add_assoc, Nat.add_right_comm] at later
  exact later

theorem Holds.head {entry : Entry} (holds : Holds encode memory base stride size first (entry :: entries)) :
    memory.read (slotAt base stride size first) stride = encode entry :=
  holds 0 (Nat.succ_pos _)

/-- Writing an entry into the next slot keeps the entries before it, while a slot is free. -/
theorem Holds.push (holds : Holds encode memory base stride size first entries)
    (fits : stride * size ≤ 2 ^ 64) (whole : ∀ entry, (encode entry).length = stride)
    (space : entries.length < size) (entry : Entry) :
    Holds encode (memory.write (slotAt base stride size (first + entries.length)) (encode entry))
      base stride size first (entries ++ [entry]) := by
  have bounded : stride ≤ 2 ^ 64 := (Nat.le_mul_of_pos_right stride (by omega)).trans fits
  intro index inside
  rcases Nat.lt_or_ge index entries.length with old | new
  · rw [List.getElem_append_left old, ← holds index old]
    apply Memory.read_congr
    intro byte within
    apply Memory.write_outside
    have different : (first + index) % size ≠ (first + entries.length) % size := by
      intro same
      have level := (Cyclic.slot_eq_iff (by omega) (by omega)).mp same
      omega
    have apart : ¬ Within (slotAt base stride size (first + entries.length) + BitVec.ofNat 64 0)
        stride (slotAt base stride size (first + index) + BitVec.ofNat 64 byte) := outside_other fits within
      (Nat.zero_lt_of_lt space) (by omega) different
    rw [whole]
    simpa using apart
  · have last : index = entries.length := by simp at inside; omega
    subst last
    have written := Memory.read_write_same memory
      (slotAt base stride size (first + entries.length)) (encode entry) (by rw [whole]; exact bounded)
    rw [whole] at written
    simpa using written

end Contents

end CircularQueue

end EduDevices
