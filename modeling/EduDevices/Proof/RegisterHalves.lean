import EduDevices.Construction.PciState

namespace EduDevices

theorem getLsbD_withLow (register val : BitVec 64) (position : Nat) :
    (withLow register val).getLsbD position =
      (register.getLsbD position && !decide (position < 32) || val.getLsbD position) := by
  have mask : (0xFFFFFFFF00000000 : BitVec 64) = BitVec.allOnes 64 <<< 32 := by decide
  rw [withLow, mask, BitVec.getLsbD_or, BitVec.getLsbD_and, BitVec.getLsbD_shiftLeft,
    BitVec.getLsbD_allOnes]
  by_cases inside : position < 64
  · simp [inside, show position - 32 < 64 by omega]
  · simp [inside, BitVec.getLsbD_of_ge register position (by omega)]

theorem getLsbD_withHigh (register val : BitVec 64) (position : Nat) :
    (withHigh register val).getLsbD position =
      (register.getLsbD position && decide (position < 32) ||
        (!decide (position < 32) && val.getLsbD (position - 32) && decide (position < 64))) := by
  have mask : (0xFFFFFFFF : BitVec 64) = (BitVec.allOnes 32).setWidth 64 := by decide
  rw [withHigh, mask, BitVec.getLsbD_or, BitVec.getLsbD_and, BitVec.getLsbD_shiftLeft,
    BitVec.getLsbD_setWidth, BitVec.getLsbD_allOnes]
  by_cases low : position < 32
  · simp [low, show position < 64 by omega]
  · simp [low, Bool.and_comm]

/-- A word passes through the handlers unchanged. -/
theorem setWidth_word (val : BitVec 32) : (val.setWidth 64).setWidth 32 = val :=
  BitVec.setWidth_setWidth_of_le val (by decide)

/-- The halves of an address as the host writes them. -/
def lowHalf (val : BitVec 64) : BitVec 32 := val.setWidth 32

def highHalf (val : BitVec 64) : BitVec 32 := (val >>> 32).setWidth 32

theorem getLsbD_highHalf (val : BitVec 64) {position : Nat} (inside : position < 64)
    (high : 32 ≤ position) :
    ((highHalf val).setWidth 64).getLsbD (position - 32) = val.getLsbD position := by
  have back : 32 + (position - 32) = position := by omega
  simp [highHalf, back, show position - 32 < 64 by omega, show position - 32 < 32 by omega]

/-- Writing both halves writes the whole register. -/
theorem withHigh_withLow (register val : BitVec 64) :
    withHigh (withLow register ((lowHalf val).setWidth 64)) ((highHalf val).setWidth 64) = val := by
  apply BitVec.eq_of_getLsbD_eq
  intro position inside
  rw [getLsbD_withHigh, getLsbD_withLow]
  by_cases low : position < 32
  · simp [low, inside, lowHalf]
  · rw [getLsbD_highHalf val inside (by omega)]
    simp [low, inside, lowHalf, show 32 ≤ position by omega]

end EduDevices
