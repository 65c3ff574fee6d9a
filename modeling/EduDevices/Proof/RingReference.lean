import EduDevices.Library.Cyclic
import EduDevices.Proof.RingStep

namespace EduDevices

/-- The reference fetches the descriptor at the head and takes it when it is readable and valid. -/
def referenceFetch (pattern : DmaPattern) (s : EduPciState) (memory : Memory) :
    Option DmaDescriptor :=
  let slot := s.ringAddr + (32 * s.ringHead).setWidth 64
  let desc := DmaDescriptor.decode (memory.read slot 32)
  if pattern.readFault slot 32 = none ∧ desc.Valid then some desc else none

/-- The reference copies at most 4096 bytes, writes the status, moves the head and notifies. -/
def referenceExecute (pattern : DmaPattern) (s : EduPciState) (g : Guest DmaDescriptor)
    (desc : DmaDescriptor) : EduPciState × Guest DmaDescriptor :=
  let slot := s.ringAddr + (32 * s.ringHead).setWidth 64
  let length := min desc.length.toNat 4096
  let source := g.memory.read desc.srcAddr length
  let (status, g) : BitVec 32 × Guest DmaDescriptor :=
    if pattern.readFault desc.srcAddr length = none then (1, pattern.write g desc.dstAddr source)
    else (2, g)
  let g := pattern.write g (slot + 0x18) (littleEndian 4 status)
  let s := s.withHead ((s.ringHead + 1) % s.ringSize)
  (s, if desc.flags &&& 2 ≠ 0 ∧ s.parentObj.msixEnabled then g.log (.msixNotify 1) else g)

/-- The reference loop runs while the head is behind the tail and stops at a rejected descriptor. -/
inductive ReferenceLoop (pattern : DmaPattern) :
    EduPciState × Guest DmaDescriptor → EduPciState × Guest DmaDescriptor → Prop
  | empty (s g) (done : s.ringHead = s.ringTail) : ReferenceLoop pattern (s, g) (s, g)
  | rejected (s g) (pending : s.ringHead ≠ s.ringTail)
      (refused : referenceFetch pattern s g.memory = none) : ReferenceLoop pattern (s, g) (s, g)
  | executed (s g desc final) (pending : s.ringHead ≠ s.ringTail)
      (accepted : referenceFetch pattern s g.memory = some desc)
      (rest : ReferenceLoop pattern (referenceExecute pattern s g desc) final) :
      ReferenceLoop pattern (s, g) final

theorem ReferenceLoop.unique {pattern : DmaPattern}
    {start first second : EduPciState × Guest DmaDescriptor}
    (one : ReferenceLoop pattern start first) (other : ReferenceLoop pattern start second) :
    first = second := by
  induction one with
  | empty s g done =>
      cases other with
      | empty => rfl
      | rejected => rfl
      | executed _ _ _ _ pending => exact absurd done pending
  | rejected s g pending refused =>
      cases other with
      | empty => rfl
      | rejected => rfl
      | executed _ _ _ _ _ accepted =>
          rw [refused] at accepted
          cases accepted
  | executed s g desc final pending accepted rest ih =>
      cases other with
      | empty _ _ done => exact absurd done pending
      | rejected _ _ _ refused =>
          rw [refused] at accepted
          cases accepted
      | executed _ _ _ _ _ again rest =>
          obtain rfl := Option.some.inj (accepted.symm.trans again)
          exact ih rest

/-- The reference loop stops with an empty ring or at a rejected descriptor. -/
theorem ReferenceLoop.stops {pattern : DmaPattern} {start final : EduPciState × Guest DmaDescriptor}
    (loop : ReferenceLoop pattern start final) :
    final.1.ringHead = final.1.ringTail ∨ referenceFetch pattern final.1 final.2.memory = none := by
  induction loop with
  | empty s g done => exact .inl done
  | rejected s g pending refused => exact .inr refused
  | executed s g desc final pending accepted rest ih => exact ih

section Pattern

variable (pattern : DmaPattern) (stack : List (Event DmaDescriptor) → Nat → Byte)
  (s : EduPciState) (g : Guest DmaDescriptor)

theorem descAddr_reference : s.ringAddr + (32 * s.ringHead).setWidth 64 = descAddr s := by
  rw [descAddr, BitVec.mul_comm]

theorem fetched_reference :
    fetched (pattern.dma stack) s g = referenceFetch pattern s g.memory := by
  rw [referenceFetch, descAddr_reference]
  rfl

theorem DmaDescriptor.toNat_len (desc : DmaDescriptor) :
    desc.len.toNat = min desc.length.toNat 4096 :=
  toNat_cappedLen desc.length

theorem transferred_reference (desc : DmaDescriptor) :
    let length := min desc.length.toNat 4096
    let result := transferred (pattern.dma stack) g desc
    (result.1, result.2.observed) =
      if pattern.readFault desc.srcAddr length = none then
        (1, pattern.write g.observed desc.dstAddr (g.memory.read desc.srcAddr length))
      else (2, g.observed) := by
  dsimp only
  rw [← DmaDescriptor.toNat_len]
  unfold transferred
  cases works : pattern.readFault desc.srcAddr desc.len.toNat with
  | none =>
      rw [pciDmaRead_of_ok (by simpa using works), length_stackBuffer]
      simp only [ne_eq, not_true_eq_false, if_false, if_true, observed_pciDmaWrite, observed_log]
      rfl
  | some fill =>
      have fails : pattern.readFault desc.srcAddr
          (stackBuffer (pattern.dma stack) g desc.len.toNat).length = some fill := by
        rw [length_stackBuffer, works]
      rw [pciDmaRead_of_error fails]
      simp only [ne_eq, reduceCtorEq, not_false_eq_true, if_true, if_false, observed_log]
      rfl

theorem notified_reference (desc : DmaDescriptor) :
    (notified s desc g).observed =
      if desc.flags &&& 2 ≠ 0 ∧ s.parentObj.msixEnabled then g.observed.log (.msixNotify 1)
      else g.observed := by
  unfold notified
  split
  · exact observed_log g _
  · rfl

/-- The guest that the observer sees after a turn is the guest of the reference. -/
theorem completed_reference (desc : DmaDescriptor) :
    (advanced s, (notified s desc (completed (pattern.dma stack) s g desc)).observed) =
      referenceExecute pattern s g.observed desc := by
  let fetch := (g.log (.dmaRead (descAddr s) (g.memory.read (descAddr s) 32) .ok)).log (.mark desc)
  have unseen : fetch.observed = g.observed := (observed_log _ _).trans (observed_log _ _)
  have transfer := transferred_reference pattern stack fetch desc
  rw [unseen] at transfer
  have status : (completed (pattern.dma stack) s g desc).observed =
      pattern.write (transferred (pattern.dma stack) fetch desc).2.observed (descAddr s + 0x18)
        (littleEndian 4 (transferred (pattern.dma stack) fetch desc).1) :=
    observed_pciDmaWrite pattern stack _ _ _
  rw [notified_reference, status]
  unfold referenceExecute
  rw [descAddr_reference]
  dsimp only at transfer ⊢
  have seen : g.observed.memory = fetch.memory := rfl
  rw [seen, ← transfer]
  rfl

/-- As long as the descriptor at the head is rejected, the loop goes round and nothing happens. -/
theorem ringLoop_rejected (remaining : Nat)
    (refused : referenceFetch pattern s g.memory = none) :
    ∃ next, ringLoop (pattern.dma stack) remaining s g = .ok (s, next) ∧
      next.observed = g.observed := by
  induction remaining generalizing g with
  | zero => exact ⟨g, rfl, rfl⟩
  | succ remaining ih =>
      unfold ringLoop
      split
      · obtain ⟨data, result, -, turn⟩ := eduRingProcessOne_rejected
          ((fetched_reference pattern stack s g).trans refused)
        obtain ⟨next, looped, same⟩ := ih (g.log (.dmaRead (descAddr s) data result)) refused
        rw [turn]
        exact ⟨next, looped, same.trans (observed_log g _)⟩
      · exact ⟨g, rfl, rfl⟩

/-- The loop does what the reference does when it has a turn for each slot up to the tail. -/
theorem ringLoop_reference (remaining pending : Nat) (enough : pending ≤ remaining)
    (size : pending < s.ringSize.toNat)
    (target : (s.ringHead.toNat + pending) % s.ringSize.toNat = s.ringTail.toNat)
    (head : s.ringHead.toNat < s.ringSize.toNat) :
    ∃ s' g', ringLoop (pattern.dma stack) remaining s g = .ok (s', g') ∧
      ReferenceLoop pattern (s, g.observed) (s', g'.observed) := by
  induction pending generalizing remaining s g with
  | zero =>
      have done : s.ringHead = s.ringTail := by
        apply BitVec.eq_of_toNat_eq
        rw [← target, Nat.add_zero, Nat.mod_eq_of_lt head]
      exact ⟨s, g, ringLoop_level remaining done, .empty s _ done⟩
  | succ pending ih =>
      have behind : s.ringHead ≠ s.ringTail := by
        intro done
        have same : s.ringHead.toNat % s.ringSize.toNat =
            (s.ringHead.toNat + (pending + 1)) % s.ringSize.toNat := by
          rw [Nat.mod_eq_of_lt head, target, done]
        have level := (Cyclic.slot_eq_iff (by omega) (by omega)).mp same
        omega
      cases accepted : referenceFetch pattern s g.memory with
      | none =>
          obtain ⟨next, looped, same⟩ := ringLoop_rejected pattern stack s g remaining accepted
          refine ⟨s, next, looped, ?_⟩
          rw [same]
          exact .rejected s _ behind accepted
      | some desc =>
          obtain ⟨remaining, rfl⟩ := Nat.exists_eq_succ_of_ne_zero (show remaining ≠ 0 by omega)
          have turn := eduRingProcessOne_executed
            ((fetched_reference pattern stack s g).trans accepted) (sized_of_slot size)
          have moved := toNat_advanced s head
          have onward : ((advanced s).ringHead.toNat + pending) % s.ringSize.toNat =
              s.ringTail.toNat := by
            rw [moved, ← target, Nat.add_comm pending, ← Nat.add_assoc]
            exact Cyclic.slot_add _ _ _
          obtain ⟨s', g', looped, follows⟩ := ih (advanced s)
            (notified s desc (completed (pattern.dma stack) s g desc)) remaining (by omega)
            (Nat.lt_of_succ_lt size) onward
            (by rw [moved]; exact Nat.mod_lt _ (Nat.zero_lt_of_lt head))
          refine ⟨s', g', ?_, ?_⟩
          · rw [ringLoop, if_pos behind, turn]
            exact looped
          · rw [completed_reference] at follows
            exact .executed s _ desc _ behind accepted follows

end Pattern

/-- The bounded loop of the device has exactly the effect of the unbounded reference loop. -/
theorem eduRingProcess_reference (pattern : DmaPattern)
    (stack : List (Event DmaDescriptor) → Nat → Byte) (s : EduPciState) (g : Guest DmaDescriptor)
    (enabled : s.ringEnabled ≠ 0) (head : s.ringHead < s.ringSize) (tail : s.ringTail < s.ringSize) :
    ∃ s' g', eduRingProcess (pattern.dma stack) s g = .ok (s', g') ∧
      (∀ final, ReferenceLoop pattern (s, g.observed) final ↔ final = (s', g'.observed)) ∧
      (s'.ringHead = s'.ringTail ∨ referenceFetch pattern s' g'.memory = none) ∧
      (s.ringSize.toNat ≤ 2 ^ 27 → ∀ index < s.ringSize,
        s.ringAddr + (32 * index).setWidth 64 =
          s.ringAddr + BitVec.ofNat 64 (32 * index.toNat)) := by
  have inside : s.ringHead.toNat < s.ringSize.toNat := head
  obtain ⟨s', g', looped, follows⟩ := ringLoop_reference pattern stack s g s.ringSize.toNat
    (Cyclic.distance s.ringSize.toNat s.ringHead.toNat s.ringTail.toNat)
    (Cyclic.distance_lt (Nat.zero_lt_of_lt inside) _ _).le
    (Cyclic.distance_lt (Nat.zero_lt_of_lt inside) _ _)
    (Cyclic.slot_add_distance inside tail) inside
  refine ⟨s', g', ?_, ?_, follows.stops, ?_⟩
  · rw [eduRingProcess, if_neg (not_or.mpr ⟨enabled, sized_of_slot inside⟩), looped]
  · intro final
    constructor
    · exact fun other => other.unique follows
    · rintro rfl
      exact follows
  · intro small index below
    have within : index.toNat < s.ringSize.toNat := below
    rw [slotOffset_exact index (by omega)]

/-- A valid descriptor waits in slot zero of a ring of four, and slot one behind it is not valid. -/
theorem eduRingProcess_reference_pair :
    let s := { EduPciState.zeroed ⟨true⟩ with ringSize := 4, ringTail := 2, ringEnabled := 1 }
    let desc : DmaDescriptor := ⟨0x500, 0, 0x600, 0, 8, 3, 0, 0⟩
    let g : Guest DmaDescriptor := ⟨Memory.write (fun _ => 0) 0 desc.encode, []⟩
    let pattern := DmaPattern.reliable
    ∃ s' g', eduRingProcess (pattern.dma fun _ _ => 0) s g = .ok (s', g') ∧
      (∀ final, ReferenceLoop pattern (s, g.observed) final ↔ final = (s', g'.observed)) ∧
      (s'.ringHead = s'.ringTail ∨ referenceFetch pattern s' g'.memory = none) ∧
      (s.ringSize.toNat ≤ 2 ^ 27 → ∀ index < s.ringSize,
        s.ringAddr + (32 * index).setWidth 64 =
          s.ringAddr + BitVec.ofNat 64 (32 * index.toNat)) :=
  eduRingProcess_reference _ _ _ _ (by decide) (by decide) (by decide)

end EduDevices
