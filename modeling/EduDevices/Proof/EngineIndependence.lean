import EduDevices.Proof.EngineFootprint

namespace EduDevices

open Execution (run run_cons_of_ok run_cons_ok_iff Interleaving)

abbrev PciMachine := EduPciState × Guest DmaDescriptor

/-- Register writes to one window, between which the host leaves its memory alone. -/
def commands (bar : Bar) (writes : List (BitVec 64 × BitVec 32)) : List PfWrite :=
  writes.map fun write => ⟨bar, id, write.1, write.2⟩

/-- What the accesses to one window record in the course of a run. -/
def recorded (dma : Dma DmaDescriptor) (bar : Bar) :
    PciMachine → List PfWrite → List (Event DmaDescriptor)
  | _, [] => []
  | machine, access :: rest =>
      match pfAccess dma machine access with
      | .error _ => []
      | .ok next =>
          (if access.bar = bar then machine.2.gained next.2 else []) ++ recorded dma bar next rest

/-- The access sets the size of the ring. -/
def PfWrite.Sizes (access : PfWrite) : Prop := access.bar = .bar4 ∧ access.write.Sizes

instance (access : PfWrite) : Decidable access.Sizes := inferInstanceAs (Decidable (_ ∧ _))

/-- No doorbell of the ring comes before a size was accepted. -/
def RingSized (s : EduPciState) (accesses : List PfWrite) : Prop :=
  ∀ before access after, accesses = before ++ access :: after → access.bar = .bar4 →
    access.write.addr = regRingTail → s.ringSize ≠ 0 ∨ ∃ sizing ∈ before, sizing.Sizes

theorem recorded_cons {dma : Dma DmaDescriptor} {machine next : PciMachine} {access : PfWrite}
    (taken : pfAccess dma machine access = .ok next) (bar : Bar) (rest : List PfWrite) :
    recorded dma bar machine (access :: rest) =
      (if access.bar = bar then machine.2.gained next.2 else []) ++ recorded dma bar next rest := by
  rw [recorded, taken]

/-- An access returns unless it rings an unsized ring, and only an accepted size sizes the ring. -/
theorem pfAccess_returns (dma : Dma DmaDescriptor) (s : EduPciState) (g : Guest DmaDescriptor)
    (access : PfWrite)
    (sized : access.bar = .bar4 → access.write.addr = regRingTail → s.ringSize ≠ 0) :
    ∃ next, pfAccess dma (s, g) access = .ok next ∧
      (next.1.ringSize ≠ 0 ↔ s.ringSize ≠ 0 ∨ access.Sizes) := by
  obtain ⟨bar, write⟩ := access
  by_cases ring : bar = .bar4
  · subst ring
    obtain ⟨next, taken, sizes, -⟩ := ringAccess_returns dma s g write (sized rfl)
    exact ⟨next, taken, by simpa [PfWrite.Sizes] using sizes⟩
  · have other (next : PciMachine) (taken : pfAccess dma (s, g) ⟨bar, write⟩ = .ok next) :
        next.1.ringSize = s.ringSize := by
      have others : next.1 = s.overlay bar next.1 := pfAccess_others taken
      rw [others]
      cases bar with
      | bar4 => exact absurd rfl ring
      | _ => rfl
    have stays : ¬ PfWrite.Sizes ⟨bar, write⟩ := fun sizes => ring sizes.1
    cases bar with
    | bar4 => exact absurd rfl ring
    | bar0 => exact ⟨_, rfl, by simp [other _ rfl, stays]⟩
    | bar5 => exact ⟨_, rfl, by simp [other _ rfl, stays]⟩

theorem RingSized.next {s next : EduPciState} {access : PfWrite} {rest : List PfWrite}
    (sized : RingSized s (access :: rest))
    (sizes : next.ringSize ≠ 0 ↔ s.ringSize ≠ 0 ∨ access.Sizes) : RingSized next rest := by
  intro before ringing after split ring doorbell
  rcases sized (access :: before) ringing after (congrArg (access :: ·) split) ring doorbell with
    nonzero | ⟨sizing, member, does⟩
  · exact .inl (sizes.mpr (.inl nonzero))
  · rcases List.mem_cons.mp member with rfl | member
    · exact .inl (sizes.mpr (.inr does))
    · exact .inr ⟨sizing, member, does⟩

theorem RingSized.returns (dma : Dma DmaDescriptor) {s : EduPciState} (g : Guest DmaDescriptor)
    {accesses : List PfWrite} (sized : RingSized s accesses) :
    ∃ final, run (pfAccess dma) (s, g) accesses = .ok final := by
  induction accesses generalizing s g with
  | nil => exact ⟨_, rfl⟩
  | cons access rest ih =>
      have first : access.bar = .bar4 → access.write.addr = regRingTail → s.ringSize ≠ 0 := by
        intro ring doorbell
        rcases sized [] access rest rfl ring doorbell with nonzero | ⟨sizing, member, -⟩
        · exact nonzero
        · exact absurd member List.not_mem_nil
      obtain ⟨⟨device, guest⟩, taken, sizes⟩ := pfAccess_returns dma s g access first
      obtain ⟨final, finished⟩ := ih guest (sized.next sizes)
      exact ⟨final, (run_cons_of_ok rest taken).trans finished⟩

/-- The rest of what an engine does on its own: it writes in its own footprint only and reads
nothing that the other engine writes. -/
structure Confined (dma : Dma DmaDescriptor) (bar : Bar) (own foreign : List (Event DmaDescriptor))
    (start : PciMachine) (accesses : List PfWrite) (final : PciMachine) : Prop where
  plain : ∀ access ∈ accesses, access.bar = bar ∧ access.write.host = id
  finished : run (pfAccess dma) start accesses = .ok final
  reads : ∀ address, Covered (readRanges (recorded dma bar start accesses)) address →
    ¬ Covered (writeRanges foreign) address
  writes : ∀ address, Covered (writeRanges (recorded dma bar start accesses)) address →
    Covered (writeRanges own) address

/-- The state in which two engines are that have run together is made of the states in which each
is that has run on its own. -/
structure Joined (a b : Bar) (first second : List (Event DmaDescriptor)) (s : EduPciState)
    (one two both : PciMachine) : Prop where
  device : both.1 = (s.overlay a one.1).overlay b two.1
  shared : one.1.parentObj = s.parentObj ∧ two.1.parentObj = s.parentObj
  ownFirst : ∀ address, ¬ Covered (writeRanges second) address →
    both.2.memory address = one.2.memory address
  ownSecond : ∀ address, ¬ Covered (writeRanges first) address →
    both.2.memory address = two.2.memory address

section Together

variable {pattern : DmaPattern} {stack : List (Event DmaDescriptor) → Nat → Byte} {a b : Bar}
  {first second own foreign : List (Event DmaDescriptor)} {s : EduPciState}
  {one two both next : PciMachine}

theorem Joined.symm (joined : Joined a b first second s one two both) (different : a ≠ b) :
    Joined b a second first s two one both where
  device := joined.device.trans (overlay_comm s one.1 two.1 different)
  shared := joined.shared.symm
  ownFirst := joined.ownSecond
  ownSecond := joined.ownFirst

/-- A step that one engine takes on its own, it takes as well when the other has run. -/
theorem Joined.step (settled : pattern.Settled stack 4096)
    (joined : Joined a b first second s one two both) (different : a ≠ b) {access : PfWrite}
    (plain : access.bar = a ∧ access.write.host = id)
    (taken : pfAccess (pattern.dma stack) one access = .ok next)
    (reads : ∀ address, Covered (readRanges (one.2.gained next.2)) address →
      ¬ Covered (writeRanges second) address)
    (writes : ∀ address, Covered (writeRanges (one.2.gained next.2)) address →
      Covered (writeRanges first) address) :
    ∃ moved, pfAccess (pattern.dma stack) both access = .ok moved ∧
      both.2.gained moved.2 = one.2.gained next.2 ∧ Joined a b first second s next two moved := by
  obtain ⟨bar, host, addr, val⟩ := access
  obtain ⟨rfl, rfl⟩ : bar = a ∧ host = id := plain
  obtain ⟨later, follows⟩ :=
    pfAccess_framed settled one.1 bar addr val one.2 next.1 next.2 taken
  have alone : next = (next.1, one.2.after pattern later) :=
    Except.ok.inj (taken.symm.trans (follows one.2 fun _ _ => rfl))
  rw [alone, Guest.gained_after] at reads writes ⊢
  have agrees : pfAccess (pattern.dma stack) (one.1, both.2) ⟨bar, id, addr, val⟩ =
      .ok (next.1, both.2.after pattern later) :=
    follows both.2 fun address read => joined.ownFirst address (reads address read)
  let base := s.overlay b two.1
  have merged : both = (base.overlay bar one.1, both.2) :=
    Prod.ext (joined.device.trans (overlay_comm s one.1 two.1 different)) rfl
  have parent : base.parentObj = one.1.parentObj :=
    (overlay_parentObj s two.1 b).trans joined.shared.1.symm
  have kept : next.1.parentObj = one.1.parentObj := by
    have others : next.1 = one.1.overlay bar next.1 := pfAccess_others taken
    rw [others]
    exact overlay_parentObj one.1 next.1 bar
  refine ⟨(base.overlay bar next.1, both.2.after pattern later), ?_, Guest.gained_after .., ?_⟩
  · rw [merged, pfAccess_overlay (pattern.dma stack) both.2 parent ⟨bar, id, addr, val⟩, agrees]
    rfl
  · constructor
    · exact overlay_comm s two.1 next.1 different.symm
    · exact ⟨kept.trans joined.shared.1, joined.shared.2⟩
    · intro address outside
      exact pattern.replay_congr (joined.ownFirst address outside) later
    · intro address outside
      have untouched : ¬ Covered (writeRanges later) address := mt (writes address) outside
      exact (pattern.replay_outside both.2.memory untouched).trans (joined.ownSecond address outside)

theorem Confined.step {dma : Dma DmaDescriptor} {bar : Bar} {start final : PciMachine}
    {access : PfWrite} {rest : List PfWrite}
    (confined : Confined dma bar own foreign start (access :: rest) final) :
    ∃ next, pfAccess dma start access = .ok next ∧
      (∀ address, Covered (readRanges (start.2.gained next.2)) address →
        ¬ Covered (writeRanges foreign) address) ∧
      (∀ address, Covered (writeRanges (start.2.gained next.2)) address →
        Covered (writeRanges own) address) ∧
      Confined dma bar own foreign next rest final := by
  obtain ⟨plain, finished, reads, writes⟩ := confined
  obtain ⟨next, taken, later⟩ := (run_cons_ok_iff _ start final access rest).mp finished
  rw [recorded_cons taken, if_pos (plain access List.mem_cons_self).1] at reads writes
  simp only [readRanges_append, writeRanges_append, covered_append] at reads writes
  exact ⟨next, taken, fun address read => reads address (.inl read),
    fun address written => writes address (.inl written),
    fun other member => plain other (List.mem_cons_of_mem access member), later,
    fun address read => reads address (.inr read),
    fun address written => writes address (.inr written)⟩

/-- Two orders of the same two engines end in one state. -/
theorem Joined.unique {last serial : PciMachine} (joined : Joined a b first second s one two last)
    (again : Joined a b first second s one two serial) (spare : Spare first second) :
    last.1 = serial.1 ∧ last.2.memory = serial.2.memory := by
  refine ⟨joined.device.trans again.device.symm, funext fun address => ?_⟩
  by_cases outside : Covered (writeRanges second) address
  · have untouched := spare.written outside
    exact (joined.ownSecond address untouched).trans (again.ownSecond address untouched).symm
  · exact (joined.ownFirst address outside).trans (again.ownFirst address outside).symm

end Together

end EduDevices
