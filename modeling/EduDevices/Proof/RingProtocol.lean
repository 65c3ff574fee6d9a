import EduDevices.Library.CircularQueue
import EduDevices.Proof.RegisterHalves
import EduDevices.Proof.RingSafety
import EduDevices.Proof.RingStatus

namespace EduDevices

open CircularQueue (slotAt Holds within_queue outside_other)

/-- A host session with the ring knows what was submitted and where the trace stood at its start. -/
structure RingSession where
  device : EduPciState
  guest : Guest DmaDescriptor
  opening : Nat
  submitted : List DmaDescriptor

/-- The descriptors that the device has executed since the session started. -/
def RingSession.executed (session : RingSession) : List DmaDescriptor :=
  (session.guest.trace.drop session.opening).filterMap Event.marked

inductive RingHostStep where
  | submit (descriptors : List DmaDescriptor)
  | control (val : BitVec 32)
  | rewrite (host : Memory → Memory)

/-- The host writes descriptors into consecutive slots, modulo the size of the ring. -/
def writeSlots (base : Address) (size : Nat) : Nat → List DmaDescriptor → Memory → Memory
  | _, [], memory => memory
  | tail, desc :: rest, memory =>
      writeSlots base size (tail + 1) rest (memory.write (slotAt base 32 size tail) desc.encode)

/-- The device answers a step of the host. -/
def deviceAnswer (dma : Dma DmaDescriptor) (session : RingSession) : RingHostStep → PciOutcome
  | .submit descriptors =>
      let size := session.device.ringSize.toNat
      let tail := session.device.ringTail.toNat
      ringAccess dma (session.device, session.guest)
        ⟨writeSlots session.device.ringAddr size tail descriptors, regRingTail,
          BitVec.ofNat 32 ((tail + descriptors.length) % size)⟩
  | .control val => ringAccess dma (session.device, session.guest) ⟨id, regRingCtrl, val⟩
  | .rewrite host => .ok (session.device, session.guest.rewrite host)

def RingHostStep.submits : RingHostStep → List DmaDescriptor
  | .submit descriptors => descriptors
  | _ => []

def ringHostStep (dma : Dma DmaDescriptor) (session : RingSession) (step : RingHostStep) :
    Except Fault RingSession :=
  (deviceAnswer dma session step).map fun (device, guest) =>
    { session with device, guest, submitted := session.submitted ++ step.submits }

/-- A descriptor that may be submitted to a ring is valid and does not write into the ring. -/
def Harmless (base : Address) (size : Nat) (desc : DmaDescriptor) : Prop :=
  desc.Valid ∧ Apart desc.dstAddr desc.len.toNat base (32 * size)

/-- The host fills free slots only and otherwise keeps its hands off the ring. -/
def Permitted (session : RingSession) : RingHostStep → Prop
  | .submit descriptors =>
      (∀ desc ∈ descriptors,
        Harmless session.device.ringAddr session.device.ringSize.toNat desc) ∧
      session.submitted.length + descriptors.length ≤
        session.executed.length + (session.device.ringSize.toNat - 1)
  | .control _ => True
  | .rewrite host =>
      Spares host session.device.ringAddr (32 * session.device.ringSize.toNat)

/-- The events are the turns of the descriptors, one for each in order, from consecutive slots. -/
def Turned (pdev : PCIDevice) (base : Address) (size : Nat) (descriptors : List DmaDescriptor)
    (events : List (Event DmaDescriptor)) : Prop :=
  ∃ turns, List.Forall₂
      (fun entry turn => DescriptorTurn pdev (slotAt base 32 size entry.2) entry.1 turn)
      descriptors.zipIdx turns ∧
    events = turns.flatten

theorem Turned.snoc {pdev : PCIDevice} {base : Address} {size : Nat}
    {descriptors : List DmaDescriptor} {events turn : List (Event DmaDescriptor)}
    {desc : DmaDescriptor} (turned : Turned pdev base size descriptors events)
    (last : DescriptorTurn pdev (slotAt base 32 size descriptors.length) desc turn) :
    Turned pdev base size (descriptors ++ [desc]) (events ++ turn) := by
  obtain ⟨turns, shaped, rfl⟩ := turned
  refine ⟨turns ++ [turn], ?_, by simp⟩
  rw [List.zipIdx_append]
  refine List.rel_append shaped (.cons ?_ .nil)
  rw [Nat.zero_add]
  exact last

/-- The pending descriptors stand in the slots from the head up to the tail. -/
structure Tracks (base : Address) (size : BitVec 32) (pending : List DmaDescriptor)
    (session : RingSession) : Prop where
  ringAddr : session.device.ringAddr = base
  ringSize : session.device.ringSize = size
  opened : session.opening ≤ session.guest.trace.length
  submitted : session.submitted = session.executed ++ pending
  window : pending.length < size.toNat
  head : session.device.ringHead.toNat = session.executed.length % size.toNat
  tail : session.device.ringTail.toNat = session.submitted.length % size.toNat
  slots : Holds DmaDescriptor.encode session.guest.memory base 32 size.toNat
    session.executed.length pending
  harmless : ∀ desc ∈ pending, Harmless base size.toNat desc
  turned : Turned session.device.parentObj base size.toNat session.executed
    (session.guest.trace.drop session.opening)

/-- What the device marks, it has executed. -/
theorem executed_marks {session : RingSession} (device : EduPciState)
    (guest : Guest DmaDescriptor) {marks : List DmaDescriptor}
    (opened : session.opening ≤ session.guest.trace.length)
    (grown : session.guest.Marks guest marks) :
    { session with device, guest }.executed = session.executed ++ marks := by
  obtain ⟨later, longer, marked⟩ := grown
  rw [RingSession.executed, longer, List.drop_append_of_le_length opened, List.filterMap_append,
    marked]
  rfl

section Device

variable {dma : Dma DmaDescriptor} {base : Address} {size : BitVec 32}
  {pending : List DmaDescriptor} {session : RingSession}

theorem Tracks.descAddr (tracks : Tracks base size pending session) (bounded : size.toNat ≤ 256) :
    descAddr session.device = slotAt base 32 size.toNat session.executed.length := by
  have small : session.device.ringHead.toNat < 2 ^ 27 := by
    have slot := Nat.mod_lt session.executed.length (Nat.zero_lt_of_lt tracks.window)
    rw [tracks.head]
    omega
  rw [EduDevices.descAddr, BitVec.mul_comm, tracks.ringAddr]
  rw [show descSize = (32 : BitVec 32) from rfl, slotOffset_exact _ small, tracks.head]
  rfl

/-- With nothing pending the head has reached the tail, and only then. -/
theorem Tracks.head_eq_tail_iff (tracks : Tracks base size pending session) :
    session.device.ringHead = session.device.ringTail ↔ pending = [] := by
  have total : session.submitted.length = session.executed.length + pending.length := by
    rw [tracks.submitted, List.length_append]
  have window := tracks.window
  rw [← BitVec.toNat_inj, tracks.head, tracks.tail,
    Cyclic.slot_eq_iff (by omega) (by omega), total, ← List.length_eq_zero_iff]
  omega

/-- One turn of the loop executes the oldest pending descriptor and no other. -/
theorem Tracks.turn {desc : DmaDescriptor} (tracks : Tracks base size (desc :: pending) session)
    (bounded : size.toNat ≤ 256)
    (readable : ∀ trace position,
      dma.readFault trace (slotAt base 32 size.toNat position) 32 = none) :
    ∃ guest, eduRingProcessOne dma session.device session.guest =
        .ok (advanced session.device, guest) ∧
      Tracks base size pending { session with device := advanced session.device, guest } := by
  have slot := tracks.descAddr bounded
  have positive : 0 < size.toNat := Nat.zero_lt_of_lt tracks.window
  have headSlot : session.device.ringHead.toNat < session.device.ringSize.toNat := by
    rw [tracks.head, tracks.ringSize]
    exact Nat.mod_lt _ positive
  obtain ⟨valid, apart⟩ := tracks.harmless desc List.mem_cons_self
  have found : fetched dma session.device session.guest = some desc := by
    refine fetched_eq_some_iff.mpr ⟨?_, valid, ?_⟩
    · rw [slot]
      exact readable _ _
    · rw [slot, tracks.slots.head, DmaDescriptor.decode_encode]
  have marks := completed_marks dma session.device session.guest desc
  obtain ⟨turn, shaped, grown⟩ := descriptorTurn_completed found
  rw [slot] at shaped
  refine ⟨_, eduRingProcessOne_executed found (sized_of_slot headSlot), ?_⟩
  have executed := executed_marks (advanced session.device) _ tracks.opened marks
  refine
    { ringAddr := tracks.ringAddr
      ringSize := tracks.ringSize
      opened := tracks.opened.trans marks.length_le
      submitted := ?_
      window := Nat.lt_of_succ_lt tracks.window
      head := ?_
      tail := tracks.tail
      slots := ?_
      harmless := fun later member => tracks.harmless later (List.mem_cons_of_mem desc member)
      turned := ?_ }
  · rw [executed, List.append_assoc]
    exact tracks.submitted
  · rw [executed, List.length_append]
    refine (toNat_advanced session.device headSlot).trans ?_
    rw [tracks.head, tracks.ringSize]
    exact Cyclic.slot_add _ _ _
  · rw [executed, List.length_append]
    apply tracks.slots.tail.congr
    intro index inside byte within
    have different : (session.executed.length + 1 + index) % size.toNat ≠
        session.executed.length % size.toNat := by
      intro same
      have window := tracks.window
      have level := (Cyclic.slot_eq_iff (by omega) (by simp at window; omega)).mp same.symm
      omega
    apply completed_memory
    · exact fun reached => apart _ reached (within_queue within positive)
    · rw [slot]
      have fits : 32 * size.toNat ≤ 2 ^ 64 := by omega
      have part : 24 + 4 ≤ 32 := by decide
      exact outside_other fits within positive part different
  · rw [executed]
    dsimp only
    rw [grown, List.drop_append_of_le_length tracks.opened]
    exact tracks.turned.snoc shaped

/-- The loop executes everything that is pending when it has a turn for each descriptor. -/
theorem Tracks.loop (tracks : Tracks base size pending session) (bounded : size.toNat ≤ 256)
    (readable : ∀ trace position,
      dma.readFault trace (slotAt base 32 size.toNat position) 32 = none)
    (remaining : Nat) (enough : pending.length ≤ remaining) :
    ∃ device guest, ringLoop dma remaining session.device session.guest = .ok (device, guest) ∧
      device.ringEnabled = session.device.ringEnabled ∧
      Tracks base size [] { session with device, guest } := by
  induction pending generalizing session remaining with
  | nil =>
      have done := tracks.head_eq_tail_iff.mpr rfl
      exact ⟨session.device, session.guest, ringLoop_level remaining done, rfl, tracks⟩
  | cons desc pending ih =>
      obtain ⟨remaining, rfl⟩ := Nat.exists_eq_succ_of_ne_zero
        (show remaining ≠ 0 by simp at enough; omega)
      have behind : session.device.ringHead ≠ session.device.ringTail := fun done =>
        List.cons_ne_nil desc pending (tracks.head_eq_tail_iff.mp done)
      obtain ⟨guest, turn, kept⟩ := tracks.turn bounded readable
      obtain ⟨device, last, looped, enabled, finished⟩ :=
        ih kept remaining (Nat.le_of_succ_le_succ enough)
      refine ⟨device, last, ?_, enabled, finished⟩
      rw [ringLoop, if_pos behind, turn]
      exact looped

theorem Tracks.process (tracks : Tracks base size pending session) (bounded : size.toNat ≤ 256)
    (readable : ∀ trace position,
      dma.readFault trace (slotAt base 32 size.toNat position) 32 = none)
    (enabled : session.device.ringEnabled ≠ 0) :
    ∃ device guest, eduRingProcess dma session.device session.guest = .ok (device, guest) ∧
      device.ringEnabled = session.device.ringEnabled ∧
      Tracks base size [] { session with device, guest } := by
  have positive : 0 < session.device.ringSize.toNat := by
    rw [tracks.ringSize]
    exact Nat.zero_lt_of_lt tracks.window
  have sized := sized_of_slot positive
  rw [eduRingProcess, if_neg (not_or.mpr ⟨enabled, sized⟩), tracks.ringSize]
  exact tracks.loop bounded readable _ tracks.window.le

/-- The written slots depend on the tail modulo the size only. -/
theorem writeSlots_congr (base : Address) (size : Nat) (descriptors : List DmaDescriptor)
    {first second : Nat} (same : first ≡ second [MOD size]) (memory : Memory) :
    writeSlots base size first descriptors memory =
      writeSlots base size second descriptors memory := by
  induction descriptors generalizing first second memory with
  | nil => rfl
  | cons desc rest ih =>
      have slot : slotAt base 32 size first = slotAt base 32 size second := by
        rw [slotAt, slotAt, same]
      rw [writeSlots, writeSlots, slot]
      exact ih (same.add_right 1) _

/-- Descriptors written behind the pending ones are pending as well. -/
theorem holds_writeSlots {memory : Memory} {size first : Nat}
    (holds : Holds DmaDescriptor.encode memory base 32 size first pending)
    (bounded : size ≤ 256) (descriptors : List DmaDescriptor)
    (space : pending.length + descriptors.length ≤ size) :
    Holds DmaDescriptor.encode
      (writeSlots base size (first + pending.length) descriptors memory) base 32 size first
      (pending ++ descriptors) := by
  induction descriptors generalizing pending memory with
  | nil => simpa [writeSlots] using holds
  | cons desc rest ih =>
      have pushed := holds.push (by omega) DmaDescriptor.length_encode
        (by simp at space; omega) desc
      have written := ih pushed (by simp at space ⊢; omega)
      rw [List.length_append, List.append_assoc] at written
      exact written

/-- A doorbell value below the size is the new tail. -/
theorem doorbell_tail {size : BitVec 32} {tail : Nat} (inside : tail < size.toNat) :
    (((BitVec.ofNat 32 tail).setWidth 64 % size.setWidth 64).setWidth 32).toNat = tail := by
  have word : tail < 2 ^ 32 := inside.trans size.isLt
  rw [toNat_rung, BitVec.toNat_ofNat, Nat.mod_eq_of_lt word, Nat.mod_eq_of_lt inside]

/-- What the host writes and announces is pending until the device processes the ring. -/
theorem Tracks.submit (tracks : Tracks base size pending session) (bounded : size.toNat ≤ 256)
    {descriptors : List DmaDescriptor} (permitted : Permitted session (.submit descriptors))
    {device : EduPciState} {ringTail : BitVec 32}
    (rung : device = session.device.withTail ringTail)
    (announced : ringTail.toNat =
      (session.device.ringTail.toNat + descriptors.length) % size.toNat) :
    Tracks base size (pending ++ descriptors)
      { session with
        device := device
        guest := session.guest.rewrite (writeSlots base size.toNat
          session.device.ringTail.toNat descriptors)
        submitted := session.submitted ++ descriptors } := by
  obtain ⟨harmless, room⟩ := permitted
  have window := tracks.window
  have space : pending.length + descriptors.length < size.toNat := by
    rw [tracks.submitted, tracks.ringSize, List.length_append] at room
    omega
  subst rung
  refine
    { ringAddr := tracks.ringAddr
      ringSize := tracks.ringSize
      opened := tracks.opened
      submitted := ?_
      window := by rw [List.length_append]; exact space
      head := tracks.head
      tail := ?_
      slots := ?_
      harmless := ?_
      turned := tracks.turned }
  · rw [tracks.submitted, List.append_assoc]
    rfl
  · rw [List.length_append]
    refine announced.trans ?_
    rw [tracks.tail]
    exact Cyclic.slot_add _ _ _
  · have same : session.device.ringTail.toNat ≡
        session.executed.length + pending.length [MOD size.toNat] := by
      rw [tracks.tail, tracks.submitted, List.length_append]
      exact Nat.mod_modEq _ _
    change Holds _ (writeSlots base size.toNat session.device.ringTail.toNat descriptors
      session.guest.memory) base 32 size.toNat session.executed.length _
    rw [writeSlots_congr base size.toNat descriptors same]
    exact holds_writeSlots tracks.slots bounded descriptors space.le
  · intro desc member
    rcases List.mem_append.mp member with old | new
    · exact tracks.harmless desc old
    · have allowed := harmless desc new
      rwa [tracks.ringAddr, tracks.ringSize] at allowed

/-- Nothing pending depends on whether the ring is enabled. -/
theorem Tracks.control (tracks : Tracks base size pending session) (ringEnabled : BitVec 32) :
    Tracks base size pending { session with device := session.device.withEnabled ringEnabled } :=
  ⟨tracks.ringAddr, tracks.ringSize, tracks.opened, tracks.submitted, tracks.window, tracks.head,
    tracks.tail, tracks.slots, tracks.harmless, tracks.turned⟩

theorem Tracks.rewrite (tracks : Tracks base size pending session) {host : Memory → Memory}
    (permitted : Permitted session (.rewrite host)) :
    Tracks base size pending { session with guest := session.guest.rewrite host } := by
  refine ⟨tracks.ringAddr, tracks.ringSize, tracks.opened, tracks.submitted, tracks.window,
    tracks.head, tracks.tail, tracks.slots.congr ?_, tracks.harmless, tracks.turned⟩
  intro index inside byte within
  apply permitted
  rw [tracks.ringAddr, tracks.ringSize]
  exact within_queue within (Nat.zero_lt_of_lt tracks.window)

/-- A served ring has nothing pending while it is enabled. -/
def Served (base : Address) (size : BitVec 32) (session : RingSession) : Prop :=
  (session.device.ringEnabled = 0 ∧ ∃ pending, Tracks base size pending session) ∨
    (session.device.ringEnabled = 1 ∧ Tracks base size [] session)

theorem Served.tracks (served : Served base size session) :
    ∃ pending, Tracks base size pending session := by
  rcases served with ⟨-, tracked⟩ | ⟨-, tracks⟩
  · exact tracked
  · exact ⟨[], tracks⟩

/-- The device takes the announced tail and processes the ring when it is enabled. -/
theorem deviceAnswer_submit (dma : Dma DmaDescriptor) (tracks : Tracks base size pending session)
    (descriptors : List DmaDescriptor) :
    ∃ ringTail : BitVec 32,
      ringTail.toNat = (session.device.ringTail.toNat + descriptors.length) % size.toNat ∧
      deviceAnswer dma session (.submit descriptors) =
        let rung := session.device.withTail ringTail
        let guest := session.guest.rewrite
          (writeSlots base size.toNat session.device.ringTail.toNat descriptors)
        if session.device.ringEnabled ≠ 0 then eduRingProcess dma rung guest
        else .ok (rung, guest) := by
  have positive : 0 < size.toNat := Nat.zero_lt_of_lt tracks.window
  have sized : session.device.ringSize ≠ 0 := by
    rw [← tracks.ringSize] at positive
    exact sized_of_slot positive
  refine ⟨_, doorbell_tail (Nat.mod_lt _ positive), ?_⟩
  unfold deviceAnswer ringAccess
  dsimp only
  rw [eduRingWrite_tail _ sized, tracks.ringAddr, tracks.ringSize]

/-- The step is answered, the ring is served again, and a disabled ring has executed nothing. -/
def Answered (dma : Dma DmaDescriptor) (base : Address) (size : BitVec 32) (session : RingSession)
    (step : RingHostStep) : Prop :=
  ∃ next, ringHostStep dma session step = .ok next ∧ Served base size next ∧
    (next.device.ringEnabled = 0 → next.executed = session.executed)

section Step

variable (served : Served base size session) (bounded : size.toNat ≤ 256)
  (readable : ∀ trace position,
    dma.readFault trace (slotAt base 32 size.toNat position) 32 = none)
include served bounded readable

theorem Served.submit {descriptors : List DmaDescriptor}
    (permitted : Permitted session (.submit descriptors)) :
    Answered dma base size session (.submit descriptors) := by
  unfold Answered ringHostStep
  rcases served with ⟨disabled, pending, tracks⟩ | ⟨enabled, tracks⟩
  · obtain ⟨ringTail, announced, answer⟩ := deviceAnswer_submit dma tracks descriptors
    rw [answer, if_neg (not_not.mpr disabled)]
    exact ⟨_, rfl, .inl ⟨disabled, _, tracks.submit bounded permitted rfl announced⟩,
      fun _ => rfl⟩
  · obtain ⟨ringTail, announced, answer⟩ := deviceAnswer_submit dma tracks descriptors
    have nonzero : session.device.ringEnabled ≠ 0 := by rw [enabled]; decide
    obtain ⟨device, guest, processed, kept, finished⟩ :=
      (tracks.submit bounded permitted rfl announced).process bounded readable nonzero
    rw [answer, if_pos nonzero]
    dsimp only at processed kept ⊢
    rw [processed]
    exact ⟨_, rfl, .inr ⟨kept.trans enabled, finished⟩,
      fun disabled => absurd (kept.symm.trans disabled) nonzero⟩

/-- Enabling a ring that is behind processes it; a ring that is level has nothing pending. -/
theorem Served.control (val : BitVec 32) : Answered dma base size session (.control val) := by
  obtain ⟨pending, tracks⟩ := served.tracks
  have answer : deviceAnswer dma session (.control val) =
      eduRingWrite dma session.device session.guest regRingCtrl (val.setWidth 64) := rfl
  unfold Answered ringHostStep
  rw [answer, eduRingWrite_ctrl]
  simp only [RingHostStep.submits, List.append_nil]
  rcases enable_cases (val.setWidth 64) with bit | bit
  · rw [bit, if_neg (fun both => both.1 rfl)]
    exact ⟨_, rfl, .inl ⟨rfl, pending, tracks.control 0⟩, fun _ => rfl⟩
  · rw [bit]
    have switched := tracks.control 1
    split
    next =>
      obtain ⟨device, guest, processed, kept, finished⟩ :=
        switched.process bounded readable (by simp)
      dsimp only at processed kept
      rw [processed]
      exact ⟨_, rfl, .inr ⟨kept, finished⟩, fun disabled => by simp [kept] at disabled⟩
    next idle =>
      have level : session.device.ringHead = session.device.ringTail := by
        by_contra behind
        exact idle ⟨by simp, behind⟩
      obtain rfl := tracks.head_eq_tail_iff.mp level
      exact ⟨_, rfl, .inr ⟨rfl, switched⟩, fun disabled => absurd disabled (by simp)⟩

omit bounded readable in
theorem Served.rewrite {host : Memory → Memory} (permitted : Permitted session (.rewrite host)) :
    Answered dma base size session (.rewrite host) := by
  unfold Answered ringHostStep
  simp only [deviceAnswer, RingHostStep.submits, List.append_nil]
  refine ⟨_, rfl, ?_, fun _ => rfl⟩
  rcases served with ⟨disabled, pending, tracks⟩ | ⟨enabled, tracks⟩
  · exact .inl ⟨disabled, pending, tracks.rewrite permitted⟩
  · exact .inr ⟨enabled, tracks.rewrite permitted⟩

/-- Every step of the host is answered, and a disabled ring executes nothing. -/
theorem Served.step {step : RingHostStep} (permitted : Permitted session step) :
    ∃ next, ringHostStep dma session step = .ok next ∧ Served base size next ∧
      (next.device.ringEnabled = 0 → next.executed = session.executed) := by
  cases step with
  | submit descriptors => exact served.submit bounded readable permitted
  | control val => exact served.control bounded readable val
  | rewrite host => exact served.rewrite permitted

end Step

end Device

/-- The enable register holds one bit in every state that the ring reaches from power-on. -/
theorem ringEnabled_reachable {dma : Dma DmaDescriptor} {parentObj : PCIDevice}
    {g : Guest DmaDescriptor} {writes : List HostWrite} {device : EduPciState}
    {guest : Guest DmaDescriptor}
    (reached : Execution.run (ringAccess dma) (EduPciState.zeroed parentObj, g) writes =
      .ok (device, guest)) :
    device.ringEnabled = 0 ∨ device.ringEnabled = 1 := by
  refine Execution.run_invariant
    (fun machine : EduPciState × Guest DmaDescriptor =>
      machine.1.ringEnabled = 0 ∨ machine.1.ringEnabled = 1)
    ?_ writes (.inl rfl) reached
  rintro ⟨s, g⟩ write next bit taken
  by_cases unsized : write.addr = regRingTail ∧ s.ringSize = 0
  · rw [ringAccess_unsized dma s g write unsized.1 unsized.2] at taken
    cases taken
  · obtain ⟨found, returned, -, kept | switched⟩ := ringAccess_returns dma s g write
      fun doorbell zero => unsized ⟨doorbell, zero⟩
    all_goals obtain rfl := Except.ok.inj (taken.symm.trans returned)
    · rwa [kept]
    · rw [switched]
      exact enable_cases _

/-- The host configures a ring with its two address halves and its size. -/
def configuration (base : Address) (size : BitVec 32) : List HostWrite :=
  [⟨id, regRingAddrLo, lowHalf base⟩, ⟨id, regRingAddrHi, highHalf base⟩, ⟨id, regRingSize, size⟩]

def EduPciState.withRing (s : EduPciState) (ringAddr : Address) (ringSize : BitVec 32) :
    EduPciState :=
  { s with ringAddr, ringSize, ringHead := 0, ringTail := 0 }

/-- The configuration takes effect whatever the registers held before. -/
theorem run_configuration (dma : Dma DmaDescriptor) (s : EduPciState) (g : Guest DmaDescriptor)
    (base : Address) {size : BitVec 32} (accepted : ringSizeAccepted (size.setWidth 64)) :
    Execution.run (ringAccess dma) (s, g) (configuration base size) =
      .ok (s.withRing base size, g) := by
  let low := { s with ringAddr := withLow s.ringAddr ((lowHalf base).setWidth 64) }
  let both := { low with ringAddr := withHigh low.ringAddr ((highHalf base).setWidth 64) }
  have lowWritten : ringAccess dma (s, g) ⟨id, regRingAddrLo, lowHalf base⟩ = .ok (low, g) := rfl
  have highWritten : ringAccess dma (low, g) ⟨id, regRingAddrHi, highHalf base⟩ = .ok (both, g) :=
    rfl
  have sized : ringAccess dma (both, g) ⟨id, regRingSize, size⟩ =
      .ok (both.withRing both.ringAddr ((size.setWidth 64).setWidth 32), g) := if_pos accepted
  have assembled : both.ringAddr = base := withHigh_withLow s.ringAddr base
  rw [configuration, Execution.run_cons_of_ok _ lowWritten, Execution.run_cons_of_ok _ highWritten,
    Execution.run_cons_of_ok _ sized, setWidth_word, assembled]
  rfl

theorem ringSizeAccepted_bounds {size : BitVec 32}
    (accepted : ringSizeAccepted (size.setWidth 64)) : 0 < size.toNat ∧ size.toNat ≤ 256 := by
  obtain ⟨positive, bounded, -⟩ := (ringSizeAccepted_iff _).mp accepted
  have word : size.toNat < 2 ^ 64 := size.isLt.trans (by decide)
  rw [BitVec.toNat_setWidth, Nat.mod_eq_of_lt word] at positive bounded
  exact ⟨positive, bounded⟩

/-- A configured ring is served, with nothing submitted and nothing executed. -/
theorem served_configured {dma : Dma DmaDescriptor} {parentObj : PCIDevice}
    {g : Guest DmaDescriptor} {history : List HostWrite} {base : Address} {size : BitVec 32}
    {device : EduPciState} {guest : Guest DmaDescriptor}
    (accepted : ringSizeAccepted (size.setWidth 64))
    (configured : Execution.run (ringAccess dma) (EduPciState.zeroed parentObj, g)
      (history ++ configuration base size) = .ok (device, guest)) :
    Served base size ⟨device, guest, guest.trace.length, []⟩ := by
  rw [Execution.run_append] at configured
  cases reached : Execution.run (ringAccess dma) (EduPciState.zeroed parentObj, g) history with
  | error fault =>
      rw [reached] at configured
      cases configured
  | ok machine =>
      obtain ⟨s, before⟩ := machine
      rw [reached] at configured
      obtain ⟨rfl, rfl⟩ := Prod.mk.inj
        (Except.ok.inj ((run_configuration dma s before base accepted).symm.trans configured))
      have executed : (⟨s.withRing base size, before, before.trace.length, []⟩ :
          RingSession).executed = [] := by
        rw [RingSession.executed, List.drop_length]
        rfl
      have positive : 0 < size.toNat := (ringSizeAccepted_bounds accepted).1
      have tracks : Tracks base size [] ⟨s.withRing base size, before, before.trace.length, []⟩ := by
        refine ⟨rfl, rfl, le_rfl, ?_, positive, ?_, ?_, ?_, ?_, ?_⟩
        · rw [executed]
          rfl
        · rw [executed]
          exact (Nat.zero_mod size.toNat).symm
        · exact (Nat.zero_mod size.toNat).symm
        · exact fun index inside => absurd inside (Nat.not_lt_zero index)
        · exact fun desc member => absurd member List.not_mem_nil
        · rw [executed, List.drop_length]
          exact ⟨[], .nil, rfl⟩
      rcases ringEnabled_reachable reached with disabled | enabled
      · exact .inl ⟨disabled, [], tracks⟩
      · exact .inr ⟨enabled, tracks⟩

/-- The session records what the steps submit, in order. -/
theorem run_submitted {dma : Dma DmaDescriptor} {session final : RingSession}
    {steps : List RingHostStep}
    (finished : Execution.run (ringHostStep dma) session steps = .ok final) :
    final.submitted = session.submitted ++ steps.flatMap RingHostStep.submits := by
  induction steps generalizing session with
  | nil =>
      obtain rfl := Except.ok.inj finished
      exact (List.append_nil _).symm
  | cons step rest ih =>
      obtain ⟨next, taken, finished⟩ := (Execution.run_cons_ok_iff _ _ _ _ _).mp finished
      have grown : next.submitted = session.submitted ++ step.submits := by
        unfold ringHostStep at taken
        cases answer : deviceAnswer dma session step with
        | error fault =>
            rw [answer] at taken
            cases taken
        | ok machine =>
            rw [answer] at taken
            obtain rfl := Except.ok.inj taken
            rfl
      rw [ih finished, grown, List.append_assoc]
      rfl

/-- After every step of a session, what the device executed is a prefix of what was submitted, and
it did nothing but one turn for each of these descriptors. An enabled ring has executed everything
and a step that leaves the ring disabled executes nothing. -/
theorem ringProtocol_exactlyOnce (dma : Dma DmaDescriptor) (parentObj : PCIDevice)
    (g : Guest DmaDescriptor) (history : List HostWrite) (base : Address) (size : BitVec 32)
    (accepted : ringSizeAccepted (size.setWidth 64))
    (readable : ∀ trace position,
      dma.readFault trace (slotAt base 32 size.toNat position) 32 = none)
    (device : EduPciState) (guest : Guest DmaDescriptor)
    (configured : Execution.run (ringAccess dma) (EduPciState.zeroed parentObj, g)
      (history ++ configuration base size) = .ok (device, guest))
    (steps : List RingHostStep)
    (legal : Execution.Legal Permitted (ringHostStep dma)
      ⟨device, guest, guest.trace.length, []⟩ steps) :
    ∀ before after, steps = before ++ after →
      ∃ reached, Execution.run (ringHostStep dma) ⟨device, guest, guest.trace.length, []⟩ before =
          .ok reached ∧
        reached.submitted = before.flatMap RingHostStep.submits ∧
        reached.executed <+: reached.submitted ∧
        Turned reached.device.parentObj base size.toNat reached.executed
          (reached.guest.trace.drop reached.opening) ∧
        (reached.device.ringEnabled ≠ 0 → reached.executed = reached.submitted ∧
          reached.device.ringHead = reached.device.ringTail ∧
          (eduRingRead reached.device regRingStatus).getLsbD 1 = false) ∧
        ∀ step next, Permitted reached step → ringHostStep dma reached step = .ok next →
          next.device.ringEnabled = 0 → next.executed = reached.executed := by
  rintro before after rfl
  have bounded := (ringSizeAccepted_bounds accepted).2
  obtain ⟨reached, finished, served⟩ := Execution.run_legal (Served base size)
    (fun session step served permitted =>
      let ⟨next, taken, kept, _⟩ := served.step bounded readable permitted
      ⟨next, taken, kept⟩)
    before (served_configured accepted configured) legal.prefix
  refine ⟨reached, finished, run_submitted finished, ?_, ?_, ?_, ?_⟩
  · obtain ⟨pending, tracks⟩ := served.tracks
    exact ⟨pending, tracks.submitted.symm⟩
  · obtain ⟨pending, tracks⟩ := served.tracks
    exact tracks.turned
  · intro nonzero
    rcases served with ⟨disabled, -⟩ | ⟨enabled, tracks⟩
    · exact absurd disabled nonzero
    · have level := tracks.head_eq_tail_iff.mpr rfl
      refine ⟨(List.append_nil _).symm.trans tracks.submitted.symm, level, ?_⟩
      have status : eduRingRead reached.device regRingStatus = (reached.device.ringEnabled |||
          ((if reached.device.ringHead ≠ reached.device.ringTail then 1 else 0 : BitVec 32) <<< 1)
            ).setWidth 64 := rfl
      rw [status, enabled, level, if_neg (not_not.mpr rfl)]
      decide
  · intro step next permitted taken disabled
    obtain ⟨found, returned, -, idle⟩ := served.step bounded readable permitted
    obtain rfl := Except.ok.inj (taken.symm.trans returned)
    exact idle disabled

/-- A ring of four takes two descriptors while it is disabled and runs them when it is enabled. -/
theorem ringProtocol_exactlyOnce_pair :
    let dma : Dma DmaDescriptor := DmaPattern.reliable.dma fun _ _ => 0
    let g : Guest DmaDescriptor := ⟨fun _ => 0, []⟩
    let device := (EduPciState.zeroed ⟨true⟩).withRing 0x1000 4
    let steps : List RingHostStep := [.submit [⟨0x500, 0, 0x600, 0, 8, 3, 0, 0⟩,
      ⟨0x600, 0, 0x700, 0, 8, 1, 0, 0⟩], .control 1]
    ∀ before after, steps = before ++ after →
      ∃ reached, Execution.run (ringHostStep dma) ⟨device, g, 0, []⟩ before = .ok reached ∧
        reached.submitted = before.flatMap RingHostStep.submits ∧
        reached.executed <+: reached.submitted ∧
        Turned reached.device.parentObj 0x1000 4 reached.executed
          (reached.guest.trace.drop reached.opening) ∧
        (reached.device.ringEnabled ≠ 0 → reached.executed = reached.submitted ∧
          reached.device.ringHead = reached.device.ringTail ∧
          (eduRingRead reached.device regRingStatus).getLsbD 1 = false) ∧
        ∀ step next, Permitted reached step → ringHostStep dma reached step = .ok next →
          next.device.ringEnabled = 0 → next.executed = reached.executed := by
  intro dma g device steps
  refine ringProtocol_exactlyOnce dma ⟨true⟩ g [] 0x1000 4 (by decide) (fun _ _ => rfl) device g
    (run_configuration dma _ g 0x1000 (by decide)) steps ⟨⟨?_, by decide⟩, fun _ _ => ⟨trivial, fun _ _ => trivial⟩⟩
  have clear (start : Address) (low : start.toNat < 0x800) : Apart start 8 0x1000 (32 * 4) := by
    intro address inside reached
    unfold Within at inside reached
    bv_omega
  intro desc member
  rcases List.mem_cons.mp member with rfl | member
  · exact ⟨by decide, clear 0x600 (by decide)⟩
  · obtain rfl := List.mem_singleton.mp member
    exact ⟨by decide, clear 0x700 (by decide)⟩

end EduDevices
