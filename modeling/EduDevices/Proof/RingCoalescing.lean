import EduDevices.Proof.RegisterWindows
import EduDevices.Proof.RingInvariant
import EduDevices.Proof.RingReference

namespace EduDevices

open Cyclic (distance distance_next distance_eq_zero_iff distance_emod)

/-- The other windows leave the ring as it is. -/
theorem RingInvariant.overlay {s : EduPciState} (invariant : RingInvariant s) {bar : Bar}
    (other : bar ≠ .bar4) (own : EduPciState) : RingInvariant (s.overlay bar own) := by
  cases bar with
  | bar0 => exact ⟨invariant.size, invariant.enabled, invariant.empty, invariant.inside⟩
  | bar4 => exact absurd rfl other
  | bar5 => exact ⟨invariant.size, invariant.enabled, invariant.empty, invariant.inside⟩

/-- Every access to the function that returns keeps the ring. -/
theorem RingInvariant.access {dma : Dma DmaDescriptor} {s next : EduPciState}
    {g guest : Guest DmaDescriptor} {access : PfWrite} (invariant : RingInvariant s)
    (taken : pfAccess dma (s, g) access = .ok (next, guest)) : RingInvariant next := by
  by_cases ring : access.bar = .bar4
  · obtain ⟨bar, write⟩ := access
    obtain rfl : bar = .bar4 := ring
    have sized : write.addr = regRingTail → s.ringSize ≠ 0 := by
      intro doorbell zero
      have failed := ringAccess_unsized dma s g write doorbell zero
      cases failed.symm.trans taken
    obtain ⟨last, again, kept, -⟩ := ringAccess_invariant dma g write invariant sized
    obtain rfl := Except.ok.inj (again.symm.trans taken)
    exact kept
  · rw [pfAccess_others taken]
    exact invariant.overlay ring next

theorem powerOn_ringInvariant {dma : Dma DmaDescriptor} {parentObj : PCIDevice}
    {g guest : Guest DmaDescriptor} {s : EduPciState} (accesses : List PfWrite)
    (reached : Execution.run (pfAccess dma) (EduPciState.zeroed parentObj, g) accesses =
      .ok (s, guest)) : RingInvariant s :=
  Execution.run_invariant (fun machine => RingInvariant machine.1)
    (fun _ _ _ invariant taken => invariant.access taken) accesses (.zeroed parentObj) reached

/-- The first part of a longer reference loop runs as on its own, however far the tail is. -/
theorem ReferenceLoop.coalesce {pattern : DmaPattern}
    {start stop final : EduPciState × Guest DmaDescriptor} (first : ReferenceLoop pattern start stop)
    {tail : BitVec 32} (inside : start.1.ringHead.toNat < start.1.ringSize.toNat)
    (near : start.1.ringTail.toNat < start.1.ringSize.toNat)
    (far : tail.toNat < start.1.ringSize.toNat)
    (ordered : distance start.1.ringSize.toNat start.1.ringHead.toNat start.1.ringTail.toNat ≤
      distance start.1.ringSize.toNat start.1.ringHead.toNat tail.toNat)
    (second : ReferenceLoop pattern (stop.1.withTail tail, stop.2) final) :
    ReferenceLoop pattern (start.1.withTail tail, start.2) final := by
  induction first with
  | empty s g done => exact second
  | rejected s g pending refused => exact second
  | executed s g desc stop pending accepted rest ih =>
      dsimp only at inside near far ordered
      have behind : s.ringHead.toNat ≠ s.ringTail.toNat := fun same =>
        pending (BitVec.eq_of_toNat_eq same)
      have positive : 0 < distance s.ringSize.toNat s.ringHead.toNat s.ringTail.toNat :=
        Nat.pos_of_ne_zero fun zero => behind ((distance_eq_zero_iff inside near).mp zero)
      have waiting : s.ringHead.toNat ≠ tail.toNat := by
        intro same
        have zero := (distance_eq_zero_iff inside far).mpr same
        omega
      have moved := toNat_advanced s inside
      have nearer := distance_next inside near behind
      have sooner := distance_next inside far waiting
      -- One turn brings both tails nearer by a slot, so they stay in order.
      refine .executed (s.withTail tail) g desc final (fun same => waiting (congrArg _ same)) accepted ?_
      have head : (referenceExecute pattern s g desc).1.ringHead.toNat =
          (s.ringHead.toNat + 1) % s.ringSize.toNat := moved
      apply ih
      · rw [head]
        exact Nat.mod_lt _ (Nat.zero_lt_of_lt inside)
      · exact near
      · exact far
      · change distance s.ringSize.toNat _ s.ringTail.toNat ≤ distance s.ringSize.toNat _ _
        rw [head]
        omega
      · exact second

/-- The tail that the ring takes from a doorbell. -/
def rungTail (s : EduPciState) (val : BitVec 32) : BitVec 32 :=
  (val.setWidth 64 % s.ringSize.setWidth 64).setWidth 32

def doorbell (val : BitVec 32) : HostWrite := ⟨id, regRingTail, val⟩

/-- A doorbell of an enabled ring has the effect of the reference loop up to its tail. -/
theorem doorbell_reference (pattern : DmaPattern)
    (stack : List (Event DmaDescriptor) → Nat → Byte) {s : EduPciState}
    (g : Guest DmaDescriptor) (invariant : RingInvariant s) (enabled : s.ringEnabled ≠ 0)
    (sized : s.ringSize ≠ 0) (val : BitVec 32) :
    ∃ ringHead next, ringAccess (pattern.dma stack) (s, g) (doorbell val) =
        .ok ((s.withTail (rungTail s val)).withHead ringHead, next) ∧
      RingInvariant ((s.withTail (rungTail s val)).withHead ringHead) ∧
      ReferenceLoop pattern (s.withTail (rungTail s val), g.observed)
        ((s.withTail (rungTail s val)).withHead ringHead, next.observed) := by
  have target : (rungTail s val).toNat < s.ringSize.toNat := by
    rw [rungTail, toNat_rung]
    exact Nat.mod_lt _ (by bv_omega)
  have rung := invariant.withTail sized target
  obtain ⟨ringHead, next, returned, kept, -⟩ := eduRingProcess_turns (pattern.dma stack) g rung
  obtain ⟨s', g', processed, only, -⟩ := eduRingProcess_reference pattern stack
    (s.withTail (rungTail s val)) g enabled (rung.inside sized).1 (rung.inside sized).2
  obtain ⟨rfl, rfl⟩ := Prod.mk.inj (Except.ok.inj (returned.symm.trans processed))
  refine ⟨ringHead, next, ?_, kept, (only _).mpr rfl⟩
  have access : ringAccess (pattern.dma stack) (s, g) (doorbell val) =
      eduRingWrite (pattern.dma stack) s g regRingTail (val.setWidth 64) := rfl
  rw [access, eduRingWrite_tail _ sized]
  exact (if_pos enabled).trans returned

/-- The two doorbells leave the same device, memory and effects as the second one alone. -/
def Coalesce (dma : Dma DmaDescriptor) (s : EduPciState) (g : Guest DmaDescriptor)
    (first second : BitVec 32) : Prop :=
  ∃ device both alone,
    Execution.run (ringAccess dma) (s, g) [doorbell first, doorbell second] = .ok (device, both) ∧
    Execution.run (ringAccess dma) (s, g) [doorbell second] = .ok (device, alone) ∧
    both.observed = alone.observed

theorem coalesce_of_invariant (pattern : DmaPattern)
    (stack : List (Event DmaDescriptor) → Nat → Byte) {s : EduPciState}
    (g : Guest DmaDescriptor) (invariant : RingInvariant s) (enabled : s.ringEnabled ≠ 0)
    (sized : s.ringSize ≠ 0) {first second : BitVec 32}
    (ordered : distance s.ringSize.toNat s.ringHead.toNat (rungTail s first).toNat ≤
      distance s.ringSize.toNat s.ringHead.toNat (rungTail s second).toNat) :
    Coalesce (pattern.dma stack) s g first second := by
  obtain ⟨middle, guest, one, kept, follows⟩ :=
    doorbell_reference pattern stack g invariant enabled sized first
  obtain ⟨last, both, other, -, onward⟩ :=
    doorbell_reference pattern stack guest kept enabled sized second
  obtain ⟨only, alone, direct, -, straight⟩ :=
    doorbell_reference pattern stack g invariant enabled sized second
  have inside (val : BitVec 32) : (rungTail s val).toNat < s.ringSize.toNat := by
    rw [rungTail, toNat_rung]
    exact Nat.mod_lt _ (by bv_omega)
  have whole := follows.coalesce (invariant.inside sized).1 (inside first) (inside second) ordered
    onward
  obtain ⟨device, effects⟩ := Prod.mk.inj (whole.unique straight)
  refine ⟨(s.withTail (rungTail s second)).withHead only, both, alone, ?_, ?_, effects⟩
  · rw [Execution.run_cons_of_ok _ one, Execution.run_cons_of_ok _ other, ← device]
    rfl
  · exact Execution.run_cons_of_ok _ direct

theorem distance_rungTail {s : EduPciState} (inside : s.ringHead.toNat < s.ringSize.toNat)
    (val : BitVec 32) :
    (distance s.ringSize.toNat s.ringHead.toNat (rungTail s val).toNat : Int) =
      ((val.toNat : Int) - s.ringHead.toNat) % s.ringSize.toNat := by
  rw [rungTail, toNat_rung, distance_emod inside]

/-- In a reachable state with the ring enabled, a doorbell at or before a later one makes no
difference, so a doorbell that is rung again makes none either. -/
theorem doorbells_coalesce (before : Dma DmaDescriptor) (parentObj : PCIDevice)
    (start guest : Guest DmaDescriptor) (accesses : List PfWrite) (s : EduPciState)
    (reached : Execution.run (pfAccess before) (EduPciState.zeroed parentObj, start) accesses =
      .ok (s, guest))
    (enabled : s.ringEnabled ≠ 0) (sized : s.ringSize ≠ 0) (pattern : DmaPattern)
    (stack : List (Event DmaDescriptor) → Nat → Byte) (g : Guest DmaDescriptor) :
    (∀ first second : BitVec 32,
      ((first.toNat : Int) - s.ringHead.toNat) % s.ringSize.toNat ≤
        ((second.toNat : Int) - s.ringHead.toNat) % s.ringSize.toNat →
      Coalesce (pattern.dma stack) s g first second) ∧
    ∀ val : BitVec 32, Coalesce (pattern.dma stack) s g val val := by
  have invariant := powerOn_ringInvariant accesses reached
  have inside : s.ringHead.toNat < s.ringSize.toNat := (invariant.inside sized).1
  constructor
  · intro first second ordered
    rw [← distance_rungTail inside, ← distance_rungTail inside] at ordered
    exact coalesce_of_invariant pattern stack g invariant enabled sized (by exact_mod_cast ordered)
  · intro val
    exact coalesce_of_invariant pattern stack g invariant enabled sized le_rfl

/-- The ring has four slots, and the first holds a descriptor that overwrites the second. -/
theorem doorbells_coalesce_overwriting :
    let s := { EduPciState.zeroed ⟨true⟩ with ringSize := 4, ringEnabled := 1 }
    let desc : DmaDescriptor := ⟨0, 0, 0x20, 0, 32, 3, 0, 0⟩
    let g : Guest DmaDescriptor := ⟨Memory.write (fun _ => 0) 0 desc.encode, []⟩
    let dma : Dma DmaDescriptor := DmaPattern.reliable.dma fun _ _ => 0
    (∀ first second : BitVec 32,
      ((first.toNat : Int) - s.ringHead.toNat) % s.ringSize.toNat ≤
        ((second.toNat : Int) - s.ringHead.toNat) % s.ringSize.toNat →
      Coalesce dma s g first second) ∧
    ∀ val : BitVec 32, Coalesce dma s g val val :=
  doorbells_coalesce (DmaPattern.reliable.dma fun _ _ => 0) ⟨true⟩ ⟨fun _ => 0, []⟩
    ⟨fun _ => 0, []⟩ [⟨.bar4, id, regRingSize, 4⟩, ⟨.bar4, id, regRingCtrl, 1⟩] _ rfl
    (by decide) (by decide) DmaPattern.reliable _ _

end EduDevices
