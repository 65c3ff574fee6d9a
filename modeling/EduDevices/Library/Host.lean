import EduDevices.Library.Dma

namespace EduDevices

variable {Mark : Type}

def Event.notifies (vector : Nat) : Event Mark → Bool
  | .msixNotify raised => raised = vector
  | _ => false

/-- The host reads the notifications of a vector from a descriptor that counts them. -/
structure EventFd where
  vector : Nat
  seen : Nat

/-- The notifications since the descriptor was read last. -/
def EventFd.pending (events : EventFd) (g : Guest Mark) : List (Event Mark) :=
  (g.trace.drop events.seen).filter (Event.notifies events.vector)

/-- Waiting succeeds when the count is not zero, and the read then clears it. -/
def EventFd.wait (events : EventFd) (g : Guest Mark) : Bool × EventFd :=
  if events.pending g = [] then (false, events) else (true, { events with seen := g.trace.length })

/-- The host has read every notification of the vector. -/
def EventFd.Drained (events : EventFd) (g : Guest Mark) : Prop :=
  events.seen ≤ g.trace.length ∧ events.pending g = []

/-- A descriptor is drained when it has just been read. -/
theorem EventFd.drained_read (vector : Nat) (g : Guest Mark) :
    (EventFd.mk vector g.trace.length).Drained g := by
  refine ⟨Nat.le_refl _, ?_⟩
  rw [EventFd.pending, List.drop_length, List.filter_nil]

section Wait

variable {events : EventFd} {g next : Guest Mark}

theorem EventFd.Drained.pending (drained : events.Drained g) {later : List (Event Mark)}
    (grown : next.trace = g.trace ++ later) :
    events.pending next = later.filter (Event.notifies events.vector) := by
  have before : (g.trace.drop events.seen).filter (Event.notifies events.vector) = [] := drained.2
  rw [EventFd.pending, grown, List.drop_append_of_le_length drained.1, List.filter_append, before,
    List.nil_append]

/-- What is raised for other vectors leaves a descriptor drained. -/
theorem EventFd.Drained.silent (drained : events.Drained g) {later : List (Event Mark)}
    (grown : next.trace = g.trace ++ later)
    (silent : ∀ event ∈ later, event.notifies events.vector = false) : events.Drained next := by
  constructor
  · rw [grown, List.length_append]
    exact drained.1.trans (Nat.le_add_right _ _)
  · rw [drained.pending grown, List.filter_eq_nil_iff]
    intro event member
    simp [silent event member]

/-- A wait after a notification of the vector succeeds. -/
theorem EventFd.Drained.arrives (drained : events.Drained g) {later : List (Event Mark)}
    (grown : next.trace = g.trace ++ later) (notified : .msixNotify events.vector ∈ later) :
    events.wait next = (true, { events with seen := next.trace.length }) := by
  apply if_neg
  rw [drained.pending grown]
  exact List.ne_nil_of_mem (List.mem_filter.mpr ⟨notified, by simp [Event.notifies]⟩)

/-- A wait that nothing was raised for times out. -/
theorem EventFd.Drained.times_out (drained : events.Drained g) {later : List (Event Mark)}
    (grown : next.trace = g.trace ++ later)
    (silent : ∀ event ∈ later, event.notifies events.vector = false) :
    events.wait next = (false, events) :=
  if_pos (drained.silent grown silent).2

end Wait

/-- A range of bus addresses lies in a window of them. -/
def Inside (base : Address) (size : Nat) (address : Address) (length : Nat) : Prop :=
  base.toNat ≤ address.toNat ∧ address.toNat + length ≤ base.toNat + size

instance (base : Address) (size : Nat) (address : Address) (length : Nat) :
    Decidable (Inside base size address length) := inferInstanceAs (Decidable (_ ∧ _))

/-- The host has mapped a window for the device: no transfer in it fails. -/
structure Mapped (dma : Dma Mark) (base : Address) (size : Nat) : Prop where
  reads : ∀ trace address length, Inside base size address length →
    dma.readFault trace address length = none
  writes : ∀ trace address length, Inside base size address length →
    dma.writeFault trace address length = none

theorem mapped_reliable (stack : List (Event Mark) → Nat → Byte) (base : Address) (size : Nat) :
    Mapped (DmaPattern.reliable.dma stack) base size :=
  ⟨fun _ _ _ _ => rfl, fun _ _ _ _ => rfl⟩

namespace Memory

/-- A read sees the written bytes, then what stood behind them. -/
theorem read_write_prefix (memory : Memory) (base : Address) (data : List Byte) (length : Nat)
    (inside : data.length ≤ length) (fits : length ≤ 2 ^ 64) :
    (memory.write base data).read base length =
      data ++ (memory.read base length).drop data.length := by
  apply List.ext_getElem
  · simp [inside]
  · intro index within _
    have bounded : index < length := by simpa using within
    rw [getElem_read]
    rcases Nat.lt_or_ge index data.length with written | behind
    · rw [List.getElem_append_left written, write_inside memory base data index written (by omega)]
    · rw [List.getElem_append_right behind, List.getElem_drop, getElem_read]
      have position : data.length + (index - data.length) = index := by omega
      rw [position]
      apply write_outside
      rw [Within, offset_add base index (by omega)]
      omega

/-- A part of a read is a read. -/
theorem slice_read (memory : Memory) (base : Address) {start count length : Nat}
    (inside : start + count ≤ length) :
    ((memory.read base length).drop start).take count =
      memory.read (base + BitVec.ofNat 64 start) count := by
  apply List.ext_getElem
  · simp
    omega
  · intro index low _
    rw [List.getElem_take, List.getElem_drop, getElem_read, getElem_read, BitVec.add_assoc,
      ← BitVec.ofNat_add]

end Memory

end EduDevices
