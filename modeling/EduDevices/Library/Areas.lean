import EduDevices.Library.Cyclic
import EduDevices.Library.Memory

namespace EduDevices

/-- A range that does not wrap holds the addresses between its ends. -/
theorem within_iff_toNat {base : Address} {length : Nat} (fits : base.toNat + length ≤ 2 ^ 64)
    (address : Address) : Within base length address ↔
      base.toNat ≤ address.toNat ∧ address.toNat < base.toNat + length := by
  unfold Within
  bv_omega

namespace Areas

variable {Entry : Type*} {size : Nat} {Area : Nat → Address → Prop}

/-- Every slot of a ring has an area of the memory to itself. -/
def Separate (size : Nat) (Area : Nat → Address → Prop) : Prop :=
  ∀ slot < size, ∀ other < size, slot ≠ other → ∀ address, Area slot address → ¬ Area other address

/-- The address lies in the area of one of some consecutive slots. -/
def Covers (size : Nat) (Area : Nat → Address → Prop) (first count : Nat) (address : Address) :
    Prop :=
  ∃ index < count, Area ((first + index) % size) address

theorem covers_succ {first count : Nat} {address : Address} :
    Covers size Area first (count + 1) address ↔
      Area (first % size) address ∨ Covers size Area (first + 1) count address := by
  constructor
  · rintro ⟨index, inside, area⟩
    cases index with
    | zero => exact .inl area
    | succ index =>
        refine .inr ⟨index, by omega, ?_⟩
        rwa [show first + 1 + index = first + (index + 1) by omega]
  · rintro (area | ⟨index, inside, area⟩)
    · exact ⟨0, Nat.succ_pos _, area⟩
    · refine ⟨index + 1, by omega, ?_⟩
      rwa [show first + (index + 1) = first + 1 + index by omega]

/-- The slots behind a slot, up to a turn of the ring, do not touch its area. -/
theorem Separate.behind (separate : Separate size Area) {first count : Nat} (turn : count < size)
    {address : Address} (area : Area (first % size) address) :
    ¬ Covers size Area (first + 1) count address := by
  rintro ⟨index, inside, other⟩
  have positive : 0 < size := by omega
  refine separate _ (Nat.mod_lt _ positive) _ (Nat.mod_lt _ positive) ?_ address area other
  intro same
  have level := (Cyclic.slot_eq_iff (by omega) (by omega)).mp same
  omega

/-- Each entry holds in the area of its slot; the last one may have a part of its own. -/
def Along (size : Nat) (Holds : Memory → Nat → Entry → Bool → Prop) (memory : Memory) :
    Nat → List Entry → Prop
  | _, [] => True
  | first, entry :: rest =>
      Holds memory (first % size) entry rest.isEmpty ∧ Along size Holds memory (first + 1) rest

/-- What holds of an entry depends on the area of its slot only. -/
def Local (size : Nat) (Area : Nat → Address → Prop)
    (Holds : Memory → Nat → Entry → Bool → Prop) : Prop :=
  ∀ memory other slot entry last, slot < size →
    (∀ address, Area slot address → other address = memory address) →
    Holds memory slot entry last → Holds other slot entry last

variable {Holds : Memory → Nat → Entry → Bool → Prop}

/-- What holds in the areas of some slots survives changes elsewhere. -/
theorem Along.congr (kept : Local size Area Holds)
    (positive : 0 < size) {memory other : Memory} {first : Nat} {entries : List Entry}
    (same : ∀ address, Covers size Area first entries.length address →
      other address = memory address)
    (along : Along size Holds memory first entries) : Along size Holds other first entries := by
  induction entries generalizing first with
  | nil => trivial
  | cons entry rest ih =>
      refine ⟨kept _ _ _ _ _ (Nat.mod_lt _ positive) ?_ along.1, ih ?_ along.2⟩
      · exact fun address area => same address (covers_succ.mpr (.inl area))
      · exact fun address covered => same address (covers_succ.mpr (.inr covered))

end Areas

end EduDevices
