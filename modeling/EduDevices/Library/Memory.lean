import Mathlib.Data.List.GetD
import Mathlib.Tactic

namespace EduDevices

abbrev Byte := BitVec 8
abbrev Address := BitVec 64

/-- A flat memory holds one byte at every address; addresses wrap modulo `2^64`. -/
abbrev Memory := Address → Byte

/-- The address lies among the `length` bytes that start at `base`. -/
def Within (base : Address) (length : Nat) (address : Address) : Prop :=
  (address - base).toNat < length

instance (base : Address) (length : Nat) (address : Address) :
    Decidable (Within base length address) := inferInstanceAs (Decidable (_ < _))

/-- Two ranges are apart when no address lies in both. -/
def Apart (base : Address) (length : Nat) (other : Address) (otherLength : Nat) : Prop :=
  ∀ address, Within base length address → ¬ Within other otherLength address

theorem Apart.symm {base other : Address} {length otherLength : Nat}
    (apart : Apart base length other otherLength) : Apart other otherLength base length :=
  fun address inOther inBase => apart address inBase inOther

/-- Ranges that do not wrap are apart when one ends before the other starts. -/
theorem apart_of_order {base other : Address} {length otherLength : Nat}
    (fits : base.toNat + length ≤ 2 ^ 64) (otherFits : other.toNat + otherLength ≤ 2 ^ 64)
    (order : base.toNat + length ≤ other.toNat ∨ other.toNat + otherLength ≤ base.toNat) :
    Apart base length other otherLength := by
  intro address inBase inOther
  unfold Within at inBase inOther
  bv_omega

theorem offset_add (base : Address) (index : Nat) (fits : index < 2 ^ 64) :
    (base + BitVec.ofNat 64 index - base).toNat = index := by
  rw [BitVec.add_comm, BitVec.add_sub_cancel, BitVec.toNat_ofNat, Nat.mod_eq_of_lt fits]

/-- Every index of a range gives an address of it, also where the range wraps. -/
theorem within_add (base : Address) {length index : Nat} (inside : index < length) :
    Within base length (base + BitVec.ofNat 64 index) := by
  rw [Within, BitVec.add_comm, BitVec.add_sub_cancel, BitVec.toNat_ofNat]
  exact (Nat.mod_le _ _).trans_lt inside

/-- Offsets from one base compare as numbers as long as they do not wrap. -/
theorem within_offset_iff (base : Address) (start length position : Nat)
    (fits : start + length ≤ 2 ^ 64) (small : position < 2 ^ 64) :
    Within (base + BitVec.ofNat 64 start) length (base + BitVec.ofNat 64 position) ↔
      start ≤ position ∧ position < start + length := by
  have difference : base + BitVec.ofNat 64 position - (base + BitVec.ofNat 64 start) =
      BitVec.ofNat 64 position - BitVec.ofNat 64 start := by
    bv_omega
  rw [Within, difference, BitVec.toNat_sub, BitVec.toNat_ofNat, BitVec.toNat_ofNat,
    Nat.mod_eq_of_lt small]
  by_cases whole : start < 2 ^ 64
  · rw [Nat.mod_eq_of_lt whole]
    omega
  · omega

namespace Memory

/-- A read collects consecutive bytes. -/
def read (memory : Memory) (base : Address) (length : Nat) : List Byte :=
  (List.range length).map fun index => memory (base + BitVec.ofNat 64 index)

/-- A store puts down the bytes that `landed` selects and leaves the rest. -/
def store (landed : Nat → Bool) (memory : Memory) (base : Address) (data : List Byte) : Memory :=
  fun address =>
    if landed (address - base).toNat then data.getD (address - base).toNat (memory address)
    else memory address

/-- A write puts down every byte. -/
def write (memory : Memory) (base : Address) (data : List Byte) : Memory :=
  memory.store (fun _ => true) base data

@[simp] theorem length_read (memory : Memory) (base : Address) (length : Nat) :
    (memory.read base length).length = length := by
  simp [read]

theorem getElem_read (memory : Memory) (base : Address) (length index : Nat)
    (inside : index < (memory.read base length).length) :
    (memory.read base length)[index] = memory (base + BitVec.ofNat 64 index) := by
  simp [read]

theorem read_congr {first second : Memory} {base : Address} {length : Nat}
    (same : ∀ index, index < length →
      first (base + BitVec.ofNat 64 index) = second (base + BitVec.ofNat 64 index)) :
    first.read base length = second.read base length := by
  apply List.map_congr_left
  intro index member
  exact same index (List.mem_range.mp member)

/-- A store changes no byte outside its range. -/
theorem store_outside (landed : Nat → Bool) (memory : Memory) (base : Address)
    (data : List Byte) (address : Address) (outside : ¬ Within base data.length address) :
    memory.store landed base data address = memory address := by
  have beyond : data.length ≤ (address - base).toNat := Nat.le_of_not_lt outside
  rw [store, List.getD_eq_default _ _ beyond, ite_self]

theorem write_outside (memory : Memory) (base : Address) (data : List Byte)
    (address : Address) (outside : ¬ Within base data.length address) :
    memory.write base data address = memory address :=
  store_outside _ memory base data address outside

/-- A write puts each byte at its offset. -/
theorem write_inside (memory : Memory) (base : Address) (data : List Byte)
    (index : Nat) (inside : index < data.length) (fits : data.length ≤ 2 ^ 64) :
    memory.write base data (base + BitVec.ofNat 64 index) = data[index] := by
  rw [write, store, offset_add base index (by omega)]
  simp [inside]

/-- A write at an offset gives the bytes of its range and leaves the others. -/
theorem write_ofNat (memory : Memory) (start position : Nat) (data : List Byte)
    (fits : start + data.length ≤ 2 ^ 64) (small : position < 2 ^ 64) :
    memory.write (BitVec.ofNat 64 start) data (BitVec.ofNat 64 position) =
      if inside : start ≤ position ∧ position < start + data.length then
        data.get ⟨position - start, by omega⟩
      else memory (BitVec.ofNat 64 position) := by
  split
  next inside =>
    have target : BitVec.ofNat 64 position =
        BitVec.ofNat 64 start + BitVec.ofNat 64 (position - start) := by
      rw [← BitVec.ofNat_add]
      exact congrArg _ (by omega)
    rw [target, write_inside memory _ data (position - start) (by omega) (by omega)]
    rfl
  next outside =>
    apply write_outside
    intro within
    have range := within_offset_iff 0#64 start data.length position fits small
    rw [BitVec.zero_add, BitVec.zero_add] at range
    exact outside (range.mp within)

/-- A write does not reach a range that is apart from it. -/
theorem read_write_apart (memory : Memory) (base : Address) (data : List Byte) (other : Address)
    (length : Nat) (apart : Apart base data.length other length) :
    (memory.write base data).read other length = memory.read other length := by
  apply read_congr
  intro index inside
  exact write_outside memory base data _ fun reached => apart _ reached (within_add other inside)

/-- A read returns what the last write to its range put there. -/
theorem read_write_same (memory : Memory) (base : Address) (data : List Byte)
    (fits : data.length ≤ 2 ^ 64) :
    (memory.write base data).read base data.length = data := by
  apply List.ext_getElem
  · simp
  · intro index inside valid
    rw [getElem_read, write_inside memory base data index valid fits]

/-- A copy takes all its bytes before it puts one down, so its ranges may overlap. -/
def copy (memory : Memory) (src dst : Address) (length : Nat) : Memory :=
  memory.write dst (memory.read src length)

theorem read_copy (memory : Memory) (src dst : Address) (length : Nat) (fits : length ≤ 2 ^ 64) :
    (memory.copy src dst length).read dst length = memory.read src length := by
  have put := read_write_same memory dst (memory.read src length) (by rwa [length_read])
  rwa [length_read] at put

theorem copy_outside (memory : Memory) (src dst : Address) (length : Nat) (address : Address)
    (outside : ¬ Within dst length address) : memory.copy src dst length address = memory address :=
  write_outside memory dst _ address (by rwa [length_read])

/-- A write changes nothing exactly when its bytes are there already. -/
theorem write_eq_self_iff (memory : Memory) (base : Address) (data : List Byte)
    (fits : data.length ≤ 2 ^ 64) :
    memory.write base data = memory ↔ data = memory.read base data.length := by
  constructor
  · intro same
    have back := read_write_same memory base data fits
    rw [same] at back
    exact back.symm
  · intro there
    funext address
    by_cases inside : Within base data.length address
    · have index : address = base + BitVec.ofNat 64 (address - base).toNat := by
        rw [BitVec.ofNat_toNat, BitVec.setWidth_eq, BitVec.add_comm, BitVec.sub_add_cancel]
      have byte := congrArg (fun bytes : List Byte => bytes[(address - base).toNat]?) there
      rw [List.getElem?_eq_getElem inside, List.getElem?_eq_getElem (by rwa [length_read]),
        getElem_read, ← index, Option.some.injEq] at byte
      rw [← byte]
      conv_lhs => rw [index]
      exact write_inside memory base data _ inside fits
    · exact write_outside memory base data address inside

end Memory

/-- The low bytes of a word, least significant first. -/
def littleEndian {width : Nat} (count : Nat) (word : BitVec width) : List Byte :=
  (List.range count).map fun index => (word >>> (8 * index)).setWidth 8

/-- The word that bytes spell, least significant first. -/
def fromLittleEndian (width : Nat) : List Byte → BitVec width
  | [] => 0
  | byte :: rest => byte.setWidth width ||| (fromLittleEndian width rest <<< 8)

@[simp] theorem length_littleEndian {width : Nat} (count : Nat) (word : BitVec width) :
    (littleEndian count word).length = count := by
  simp [littleEndian]

theorem drop_littleEndian {width : Nat} (count past : Nat) (word : BitVec width)
    (beyond : count ≤ past) : (littleEndian count word).drop past = [] :=
  List.drop_eq_nil_of_le (by simpa using beyond)

theorem take_littleEndian {width : Nat} (count past : Nat) (word : BitVec width)
    (beyond : count ≤ past) : (littleEndian count word).take past = littleEndian count word :=
  List.take_of_length_le (by simpa using beyond)

/-- The word that a buffer holds at an offset. -/
def wordAt (width : Nat) (bytes : List Byte) (offset : Nat) : BitVec width :=
  fromLittleEndian width ((bytes.drop offset).take (width / 8))

theorem getLsbD_fromLittleEndian (width : Nat) (bytes : List Byte) (position : Nat) :
    (fromLittleEndian width bytes).getLsbD position =
      (decide (position < width) && (bytes.getD (position / 8) 0).getLsbD (position % 8)) := by
  induction bytes generalizing position with
  | nil => simp [fromLittleEndian]
  | cons byte rest ih =>
      by_cases low : position < 8
      · have first : position / 8 = 0 := by omega
        have same : position % 8 = position := by omega
        simp [fromLittleEndian, low, first, same]
      · obtain ⟨above, rfl⟩ : ∃ above, position = above + 8 := ⟨position - 8, by omega⟩
        have quotient : (above + 8) / 8 = above / 8 + 1 := by omega
        have remainder : (above + 8) % 8 = above % 8 := by omega
        simp only [fromLittleEndian, BitVec.getLsbD_or, BitVec.getLsbD_setWidth,
          BitVec.getLsbD_shiftLeft, ih, quotient, remainder, List.getD_cons_succ,
          Nat.add_sub_cancel]
        by_cases inside : above + 8 < width
        · simp [inside, show above < width by omega]
        · simp [inside]

/-- Spelling the bytes of a word gives the word back. -/
theorem fromLittleEndian_littleEndian {width : Nat} (count : Nat) (word : BitVec width)
    (fits : width ≤ 8 * count) : fromLittleEndian width (littleEndian count word) = word := by
  apply BitVec.eq_of_getLsbD_eq
  intro position inside
  have index : position / 8 < count := by omega
  have split : 8 * (position / 8) + position % 8 = position := Nat.div_add_mod position 8
  have low : position % 8 < 8 := Nat.mod_lt _ (by decide)
  rw [getLsbD_fromLittleEndian]
  simp [inside, littleEndian, index, low, split]

/-- Two buffers that hold the same word at an offset have the same bytes there. -/
theorem getElem_of_wordAt {width offset index : Nat} {first second : List Byte}
    (same : wordAt width first offset = wordAt width second offset)
    (inside : offset ≤ index ∧ index < offset + width / 8) (low : index < first.length)
    (high : index < second.length) : first[index] = second[index] := by
  obtain ⟨within, rfl⟩ := Nat.exists_eq_add_of_le inside.1
  apply BitVec.eq_of_getLsbD_eq
  intro bit small
  have position : (8 * within + bit) / 8 = within := by omega
  have rest : (8 * within + bit) % 8 = bit := by omega
  have bits := congrArg (fun word => word.getLsbD (8 * within + bit)) same
  have bounded : 8 * within + bit < width := by omega
  have taken : within < width / 8 := by omega
  simpa only [wordAt, getLsbD_fromLittleEndian, position, rest, bounded, decide_true, Bool.true_and,
    List.getD_eq_getElem?_getD, List.getElem?_take_of_lt taken, List.getElem?_drop,
    List.getElem?_eq_getElem low, List.getElem?_eq_getElem high, Option.getD_some] using bits

end EduDevices
