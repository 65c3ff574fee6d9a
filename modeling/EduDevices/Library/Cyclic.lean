import Mathlib.Tactic

namespace EduDevices.Cyclic

/-- Positions less than a turn apart share a slot only when they are the same. -/
theorem slot_eq_iff {first second size : Nat} (ordered : first ≤ second)
    (near : second < first + size) : first % size = second % size ↔ first = second := by
  constructor
  · intro same
    obtain ⟨gap, rfl⟩ := Nat.exists_eq_add_of_le ordered
    have turns : gap % size = 0 := by
      have congruent : first + 0 ≡ first + gap [MOD size] := same
      exact (Eq.symm (Nat.ModEq.add_left_cancel' first congruent)).trans (Nat.zero_mod size)
    have short : gap % size = gap := Nat.mod_eq_of_lt (by omega)
    omega
  · exact congrArg (· % size)

/-- Moving on from a slot is moving on from any position in it. -/
theorem slot_add (position step size : Nat) :
    (position % size + step) % size = (position + step) % size :=
  Nat.mod_add_mod position size step

/-- The slots from one slot on until another. -/
def distance (size head tail : Nat) : Nat := (tail + (size - head)) % size

theorem distance_lt {size : Nat} (positive : 0 < size) (head tail : Nat) :
    distance size head tail < size :=
  Nat.mod_lt _ positive

/-- The distance leads from the one slot to the other. -/
theorem slot_add_distance {size head tail : Nat} (inside : head < size) (target : tail < size) :
    (head + distance size head tail) % size = tail := by
  rw [distance, Nat.add_mod_mod]
  have turn : head + (tail + (size - head)) = tail + size := by omega
  rw [turn, Nat.add_mod_right, Nat.mod_eq_of_lt target]

theorem distance_of_le {size head tail : Nat} (ordered : head ≤ tail) (target : tail < size) :
    distance size head tail = tail - head := by
  have turn : tail + (size - head) = tail - head + size := by omega
  rw [distance, turn, Nat.add_mod_right, Nat.mod_eq_of_lt (by omega)]

theorem distance_of_lt {size head tail : Nat} (behind : tail < head) (inside : head < size) :
    distance size head tail = tail + (size - head) := by
  rw [distance, Nat.mod_eq_of_lt (by omega)]

theorem distance_eq_zero_iff {size head tail : Nat} (inside : head < size) (target : tail < size) :
    distance size head tail = 0 ↔ head = tail := by
  rcases Nat.lt_or_ge tail head with behind | ordered
  · rw [distance_of_lt behind inside]
    omega
  · rw [distance_of_le ordered target]
    omega

/-- Each slot passed brings the target one nearer. -/
theorem distance_next {size head tail : Nat} (inside : head < size) (target : tail < size)
    (apart : head ≠ tail) : distance size ((head + 1) % size) tail + 1 = distance size head tail := by
  rcases Nat.lt_or_gt_of_ne apart with ahead | behind
  · rw [Nat.mod_eq_of_lt (by omega), distance_of_le ahead.le target, distance_of_le ahead target]
    omega
  · rw [distance_of_lt behind inside]
    rcases Nat.lt_or_eq_of_le (Nat.succ_le_of_lt inside) with more | last
    · rw [Nat.mod_eq_of_lt more, distance_of_lt (by omega) more]
      omega
    · rw [show head + 1 = size from last, Nat.mod_self, distance_of_le (Nat.zero_le _) target]
      omega

/-- The distance is the difference of the two indices modulo the size. -/
theorem distance_emod {size head : Nat} (inside : head < size) (tail : Nat) :
    (distance size head (tail % size) : Int) = ((tail : Int) - head) % size := by
  have turn : ((tail + (size - head) : Nat) : Int) = (tail : Int) - head + size := by omega
  rw [distance, Nat.mod_add_mod, Int.natCast_emod, turn, Int.add_emod_right]

/-- The number of slots that an index passes on its way through given slots. -/
def travelled (size : Nat) : Nat → List Nat → Nat
  | _, [] => 0
  | index, next :: rest => distance size index next + travelled size next rest

theorem travelled_append (size index : Nat) (first second : List Nat) :
    travelled size index (first ++ second) =
      travelled size index first + travelled size (first.getLastD index) second := by
  induction first generalizing index with
  | nil => rw [List.nil_append, travelled, Nat.zero_add, List.getLastD_nil]
  | cons next rest ih =>
      rw [List.cons_append, travelled, travelled, ih, List.getLastD_cons, Nat.add_assoc]

end EduDevices.Cyclic
