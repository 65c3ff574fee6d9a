import EduDevices.Library.Memory
import Mathlib.Data.List.TakeWhile

namespace EduDevices.CString

def ofChar (char : Char) : Byte := BitVec.ofNat 8 char.toNat

/-- The characters of a string are the bytes before its first NUL. -/
def characters (bytes : List Byte) : List Byte := bytes.takeWhile fun byte => byte ≠ 0

/-- This is the conversion `%u`. -/
def unsignedDecimal (value : Nat) : List Byte := (Nat.toDigits 10 value).map ofChar

/-- This is the conversion `%d`. -/
def signedDecimal : Int → List Byte
  | .ofNat value => unsignedDecimal value
  | .negSucc value => ofChar '-' :: unsignedDecimal (value + 1)

/-- A bounded format call stores as much of its text as leaves room for a NUL, then the NUL. -/
def terminated (size : Nat) (text : List Byte) : List Byte := text.take (size - 1) ++ [0]

/-- The call leaves the rest of its buffer alone and returns the length of the whole text. -/
def snprintf {size : Nat} (buffer : Vector Byte size) (text : List Byte) :
    Vector Byte size × Nat :=
  (Vector.ofFn fun index => (terminated size text).getD index.val buffer[index], text.length)

theorem zero_notMem_characters (bytes : List Byte) : (0 : Byte) ∉ characters bytes := by
  intro mem
  simpa using List.mem_takeWhile_imp mem

/-- A NUL ends a string whatever stands behind it. -/
theorem characters_terminated (bytes behind : List Byte) :
    characters (bytes ++ 0 :: behind) = characters bytes := by
  unfold characters
  induction bytes with
  | nil => rfl
  | cons byte rest ih =>
      rw [List.cons_append, List.takeWhile_cons, List.takeWhile_cons, ih]

theorem length_characters_le (bytes : List Byte) : (characters bytes).length ≤ bytes.length :=
  (List.takeWhile_prefix _).length_le

theorem characters_eq_self_iff (bytes : List Byte) :
    characters bytes = bytes ↔ (0 : Byte) ∉ bytes := by
  constructor
  · intro whole
    rw [← whole]
    exact zero_notMem_characters bytes
  · intro absent
    apply List.takeWhile_eq_self_iff.mpr
    intro byte mem
    exact decide_eq_true (ne_of_mem_of_not_mem mem absent)

/-- Only a string without a NUL keeps its length. -/
theorem zero_notMem_of_length_characters {bytes : List Byte}
    (same : bytes.length ≤ (characters bytes).length) : (0 : Byte) ∉ bytes :=
  (characters_eq_self_iff bytes).mp ((List.takeWhile_prefix _).eq_of_length_le same)

/-- The bytes of a decimal number are the characters `0` to `9`. -/
theorem digit_of_mem_unsignedDecimal {value : Nat} {byte : Byte}
    (mem : byte ∈ unsignedDecimal value) : 48 ≤ byte.toNat ∧ byte.toNat ≤ 57 := by
  obtain ⟨char, digit, rfl⟩ := List.mem_map.mp mem
  have range := Nat.isDigit_of_mem_toDigits (by decide) (by decide) digit
  have bounds : 48 ≤ char.toNat ∧ char.toNat ≤ 57 := Char.isDigit_iff_toNat.mp range
  have value : (ofChar char).toNat = char.toNat :=
    Nat.mod_eq_of_lt (lt_of_le_of_lt bounds.2 (by decide))
  rw [value]
  exact bounds

theorem zero_notMem_unsignedDecimal (value : Nat) : (0 : Byte) ∉ unsignedDecimal value :=
  fun mem => absurd (digit_of_mem_unsignedDecimal mem).1 (by decide)

theorem unsignedDecimal_ne_nil (value : Nat) : unsignedDecimal value ≠ [] :=
  fun empty => Nat.toDigits_ne_nil (List.map_eq_nil_iff.mp empty)

/-- A number below a power of ten has at most as many digits as its exponent. -/
theorem length_unsignedDecimal_le {value digits : Nat} (positive : 0 < digits)
    (small : value < 10 ^ digits) : (unsignedDecimal value).length ≤ digits := by
  rw [unsignedDecimal, List.length_map]
  exact (Nat.length_toDigits_le_iff (by decide) positive).mpr small

/-- The sign takes one more character than the digits. -/
theorem length_signedDecimal_le {value : Int} {digits : Nat} (positive : 0 < digits)
    (small : value.natAbs < 10 ^ digits) : (signedDecimal value).length ≤ digits + 1 := by
  cases value with
  | ofNat value => exact (length_unsignedDecimal_le positive small).trans (Nat.le_succ digits)
  | negSucc value => exact Nat.succ_le_succ (length_unsignedDecimal_le positive small)

theorem signedDecimal_ne_nil (value : Int) : signedDecimal value ≠ [] := by
  cases value with
  | ofNat value => exact unsignedDecimal_ne_nil value
  | negSucc value => exact List.cons_ne_nil _ _

/-- A decimal number without a sign does not start like a negative one. -/
theorem head_unsignedDecimal_ne_minus (value : Nat) :
    (unsignedDecimal value)[0]? ≠ some (ofChar '-') := by
  intro minus
  have digit := digit_of_mem_unsignedDecimal (List.mem_of_getElem? minus)
  exact absurd digit.1 (by decide)

theorem head_signedDecimal_of_neg {value : Int} (negative : value < 0) :
    (signedDecimal value)[0]? = some (ofChar '-') := by
  cases value with
  | ofNat value => exact absurd negative (Int.not_lt.mpr (Int.natCast_nonneg value))
  | negSucc value => rfl

theorem length_terminated (size : Nat) (text : List Byte) :
    (terminated size text).length = min (size - 1) text.length + 1 := by
  rw [terminated, List.length_append, List.length_take, List.length_singleton]

section Snprintf

variable {size : Nat} (buffer : Vector Byte size) (text : List Byte)

theorem getElem_snprintf (index : Nat) (inside : index < size) :
    (snprintf buffer text).1[index] = (terminated size text).getD index buffer[index] :=
  Vector.getElem_ofFn inside

/-- The buffer holds the text as far as it leaves room for the NUL. -/
theorem getElem_snprintf_text {index : Nat} (inside : index < text.length)
    (room : index + 1 < size) : (snprintf buffer text).1[index] = text[index] := by
  have position : index < (text.take (size - 1)).length := by
    rw [List.length_take]
    omega
  rw [getElem_snprintf, terminated, List.getD_append _ _ _ _ position,
    List.getD_eq_getElem _ _ position, List.getElem_take]

/-- A text that does not fit ends in the last byte of the buffer. -/
theorem getElem_snprintf_nul (nonempty : 0 < size) (long : size ≤ text.length + 1) :
    (snprintf buffer text).1[size - 1] = 0 := by
  have length : (text.take (size - 1)).length = size - 1 := by
    rw [List.length_take]
    omega
  rw [getElem_snprintf, terminated, List.getD_append_right _ _ _ _ (le_of_eq length), length,
    Nat.sub_self]
  rfl

end Snprintf

end EduDevices.CString
