import EduDevices.Library.Memory

namespace EduDevices

/-- A C function that does not return has divided by zero or loops for ever. -/
inductive Fault where
  | divideByZero
  | noReturn
  deriving DecidableEq, Repr

def modulo {width : Nat} (dividend divisor : BitVec width) : Except Fault (BitVec width) :=
  if divisor = 0 then .error .divideByZero else .ok (dividend % divisor)

inductive MemTxResult where
  | ok
  | error
  deriving DecidableEq, Repr

/-- The trace lists what a device does to its guest; a device may mark points of its own. -/
inductive Event (Mark : Type) where
  | dmaRead (address : Address) (buffer : List Byte) (result : MemTxResult)
  | dmaWrite (address : Address) (data : List Byte) (result : MemTxResult)
  | msixNotify (vector : Nat)
  | intx (level : Bool)
  | mark (point : Mark)

/-- The effects are what the guest can observe: its written memory and its interrupts. -/
def Event.isEffect {Mark : Type} : Event Mark → Bool
  | .dmaRead .. => false
  | .mark _ => false
  | _ => true

def Event.marked {Mark : Type} : Event Mark → Option Mark
  | .mark point => some point
  | _ => none

/-- A guest is its memory and the trace of what was done to it, the oldest event first. -/
structure Guest (Mark : Type) where
  memory : Memory
  trace : List (Event Mark)

/-- The bus decides each transfer from the trace so far, the address and the length. A failed
read may overwrite any part of the buffer with any bytes, and a failed write may still have put
down any part of its data. The last field is what a local buffer holds before its first write. -/
structure Dma (Mark : Type) where
  readFault : List (Event Mark) → Address → Nat → Option (Nat → Option Byte)
  writeFault : List (Event Mark) → Address → Nat → Option (Nat → Bool)
  stack : List (Event Mark) → Nat → Byte

/-- A pattern fixes the outcome of every transfer by its address and length. -/
structure DmaPattern where
  readFault : Address → Nat → Option (Nat → Option Byte)
  writeFault : Address → Nat → Option (Nat → Bool)

def DmaPattern.dma {Mark : Type} (pattern : DmaPattern)
    (stack : List (Event Mark) → Nat → Byte) : Dma Mark where
  readFault _ := pattern.readFault
  writeFault _ := pattern.writeFault
  stack := stack

@[simp] theorem DmaPattern.dma_readFault {Mark : Type} (pattern : DmaPattern)
    (stack : List (Event Mark) → Nat → Byte) (trace : List (Event Mark)) :
    (pattern.dma stack).readFault trace = pattern.readFault := rfl

@[simp] theorem DmaPattern.dma_writeFault {Mark : Type} (pattern : DmaPattern)
    (stack : List (Event Mark) → Nat → Byte) (trace : List (Event Mark)) :
    (pattern.dma stack).writeFault trace = pattern.writeFault := rfl

/-- No transfer of this bus fails. -/
def DmaPattern.reliable : DmaPattern where
  readFault _ _ := none
  writeFault _ _ := none

variable {Mark : Type}

def Guest.log (g : Guest Mark) (event : Event Mark) : Guest Mark :=
  { g with trace := g.trace ++ [event] }

/-- The host may rewrite its memory whenever no access is under way. -/
def Guest.rewrite (g : Guest Mark) (host : Memory → Memory) : Guest Mark :=
  { g with memory := host g.memory }

/-- The host leaves a range of its memory alone. -/
def Spares (host : Memory → Memory) (base : Address) (length : Nat) : Prop :=
  ∀ memory address, Within base length address → host memory address = memory address

/-- A read survives a host that leaves its range alone. -/
theorem Spares.read {host : Memory → Memory} {base : Address} {length : Nat}
    (spares : Spares host base length) (memory : Memory) :
    (host memory).read base length = memory.read base length :=
  Memory.read_congr fun _ inside => spares memory _ (within_add base inside)

@[simp] theorem Guest.rewrite_memory (g : Guest Mark) (host : Memory → Memory) :
    (g.rewrite host).memory = host g.memory := rfl

@[simp] theorem Guest.rewrite_trace (g : Guest Mark) (host : Memory → Memory) :
    (g.rewrite host).trace = g.trace := rfl

@[simp] theorem Guest.log_memory (g : Guest Mark) (event : Event Mark) :
    (g.log event).memory = g.memory := rfl

@[simp] theorem Guest.log_trace (g : Guest Mark) (event : Event Mark) :
    (g.log event).trace = g.trace ++ [event] := rfl

/-- A local buffer that nothing has written to yet. -/
def stackBuffer (dma : Dma Mark) (g : Guest Mark) (length : Nat) : List Byte :=
  (List.range length).map (dma.stack g.trace)

@[simp] theorem length_stackBuffer (dma : Dma Mark) (g : Guest Mark) (length : Nat) :
    (stackBuffer dma g length).length = length := by
  simp [stackBuffer]

/-- The read fills a buffer of the given old contents. -/
def pciDmaRead (dma : Dma Mark) (g : Guest Mark) (address : Address) (buffer : List Byte) :
    MemTxResult × List Byte × Guest Mark :=
  match dma.readFault g.trace address buffer.length with
  | none =>
      let data := g.memory.read address buffer.length
      (.ok, data, g.log (.dmaRead address data .ok))
  | some fill =>
      let data := buffer.mapIdx fun index old => (fill index).getD old
      (.error, data, g.log (.dmaRead address data .error))

def pciDmaWrite (dma : Dma Mark) (g : Guest Mark) (address : Address) (data : List Byte) :
    MemTxResult × Guest Mark :=
  match dma.writeFault g.trace address data.length with
  | none =>
      let memory := g.memory.write address data
      (.ok, { g with memory }.log (.dmaWrite address data .ok))
  | some landed =>
      let memory := g.memory.store landed address data
      (.error, { g with memory }.log (.dmaWrite address data .error))

def msixNotify (g : Guest Mark) (vector : Nat) : Guest Mark := g.log (.msixNotify vector)

theorem pciDmaRead_of_ok {dma : Dma Mark} {g : Guest Mark} {address : Address}
    {buffer : List Byte} (works : dma.readFault g.trace address buffer.length = none) :
    pciDmaRead dma g address buffer = (.ok, g.memory.read address buffer.length,
      g.log (.dmaRead address (g.memory.read address buffer.length) .ok)) := by
  rw [pciDmaRead, works]

theorem pciDmaRead_of_error {dma : Dma Mark} {g : Guest Mark} {address : Address}
    {buffer : List Byte} {fill : Nat → Option Byte}
    (fails : dma.readFault g.trace address buffer.length = some fill) :
    pciDmaRead dma g address buffer =
      (.error, buffer.mapIdx fun index old => (fill index).getD old,
        g.log (.dmaRead address (buffer.mapIdx fun index old => (fill index).getD old) .error)) := by
  rw [pciDmaRead, fails]

/-- The observer of a guest sees its memory and the effects on it, but not the device's reads. -/
def Guest.observed (g : Guest Mark) : Guest Mark :=
  { g with trace := g.trace.filter Event.isEffect }

/-- A write that follows the pattern. -/
def DmaPattern.write (pattern : DmaPattern) (g : Guest Mark) (address : Address)
    (data : List Byte) : Guest Mark :=
  match pattern.writeFault address data.length with
  | none => ⟨g.memory.write address data, g.trace ++ [.dmaWrite address data .ok]⟩
  | some landed => ⟨g.memory.store landed address data, g.trace ++ [.dmaWrite address data .error]⟩

@[simp] theorem observed_memory (g : Guest Mark) : g.observed.memory = g.memory := rfl

theorem observed_log (g : Guest Mark) (event : Event Mark) :
    (g.log event).observed = if event.isEffect then g.observed.log event else g.observed := by
  unfold Guest.observed Guest.log
  rw [List.filter_append]
  cases visible : event.isEffect <;> simp [visible]

theorem observed_pciDmaWrite (pattern : DmaPattern) (stack : List (Event Mark) → Nat → Byte)
    (g : Guest Mark) (address : Address) (data : List Byte) :
    (pciDmaWrite (pattern.dma stack) g address data).2.observed =
      pattern.write g.observed address data := by
  unfold pciDmaWrite DmaPattern.write DmaPattern.dma
  dsimp only
  split <;> exact observed_log _ _

/-- A read logs itself with the data and the result. -/
theorem pciDmaRead_trace (dma : Dma Mark) (g : Guest Mark) (address : Address)
    (buffer : List Byte) :
    (pciDmaRead dma g address buffer).2.2.trace =
      g.trace ++ [.dmaRead address (pciDmaRead dma g address buffer).2.1
        (pciDmaRead dma g address buffer).1] := by
  unfold pciDmaRead
  split <;> rfl

@[simp] theorem pciDmaRead_memory (dma : Dma Mark) (g : Guest Mark) (address : Address)
    (buffer : List Byte) : (pciDmaRead dma g address buffer).2.2.memory = g.memory := by
  unfold pciDmaRead
  split <;> rfl

@[simp] theorem pciDmaRead_length (dma : Dma Mark) (g : Guest Mark) (address : Address)
    (buffer : List Byte) : (pciDmaRead dma g address buffer).2.1.length = buffer.length := by
  unfold pciDmaRead
  split <;> simp

/-- A failed read leaves a buffer of the given old contents as it was. -/
def FaultLeaves (fill : Nat → Option Byte) (buffer : List Byte) : Prop :=
  ∀ index (inside : index < buffer.length), (fill index).getD buffer[index] = buffer[index]

theorem faultLeaves_iff (fill : Nat → Option Byte) (buffer : List Byte) :
    FaultLeaves fill buffer ↔ (buffer.mapIdx fun index old => (fill index).getD old) = buffer := by
  constructor
  · intro leaves
    apply List.ext_getElem (List.length_mapIdx ..)
    intro index _ inside
    rw [List.getElem_mapIdx]
    exact leaves index inside
  · intro same index inside
    have byte := congrArg (fun bytes : List Byte => bytes[index]?) same
    simpa [inside] using byte

theorem pciDmaWrite_of_ok {dma : Dma Mark} {g : Guest Mark} {address : Address}
    {data : List Byte} (works : dma.writeFault g.trace address data.length = none) :
    pciDmaWrite dma g address data =
      (.ok, ⟨g.memory.write address data, g.trace ++ [.dmaWrite address data .ok]⟩) := by
  rw [pciDmaWrite, works]
  rfl

theorem pciDmaRead_ok_iff (dma : Dma Mark) (g : Guest Mark) (address : Address)
    (buffer : List Byte) : (pciDmaRead dma g address buffer).1 = .ok ↔
      dma.readFault g.trace address buffer.length = none := by
  unfold pciDmaRead
  split <;> simp_all

theorem pciDmaWrite_ok_iff (dma : Dma Mark) (g : Guest Mark) (address : Address)
    (data : List Byte) : (pciDmaWrite dma g address data).1 = .ok ↔
      dma.writeFault g.trace address data.length = none := by
  unfold pciDmaWrite
  split <;> simp_all

/-- A read leaves its buffer as it was: it fetches the same bytes, or fails without a trace in it. -/
def ReadLeaves (dma : Dma Mark) (g : Guest Mark) (address : Address) (buffer : List Byte) : Prop :=
  (dma.readFault g.trace address buffer.length = none →
    g.memory.read address buffer.length = buffer) ∧
  ∀ fill, dma.readFault g.trace address buffer.length = some fill → FaultLeaves fill buffer

theorem readLeaves_iff (dma : Dma Mark) (g : Guest Mark) (address : Address)
    (buffer : List Byte) :
    ReadLeaves dma g address buffer ↔ (pciDmaRead dma g address buffer).2.1 = buffer := by
  unfold ReadLeaves
  cases fault : dma.readFault g.trace address buffer.length with
  | none =>
      rw [pciDmaRead_of_ok fault]
      simp
  | some fill =>
      rw [pciDmaRead_of_error fault, ← faultLeaves_iff]
      simp

/-- A write logs itself with its result. -/
theorem pciDmaWrite_trace (dma : Dma Mark) (g : Guest Mark) (address : Address)
    (data : List Byte) :
    (pciDmaWrite dma g address data).2.trace =
      g.trace ++ [.dmaWrite address data (pciDmaWrite dma g address data).1] := by
  unfold pciDmaWrite
  split <;> rfl

/-- A write reaches no byte outside its range, whether it fails or not. -/
theorem pciDmaWrite_outside (dma : Dma Mark) (g : Guest Mark) (address : Address)
    (data : List Byte) (other : Address) (outside : ¬ Within address data.length other) :
    (pciDmaWrite dma g address data).2.memory other = g.memory other := by
  unfold pciDmaWrite
  split
  · exact Memory.write_outside g.memory address data other outside
  · exact Memory.store_outside _ g.memory address data other outside

/-- The trace grew by events that carry the given marks, in order. -/
def Guest.Marks (g next : Guest Mark) (marks : List Mark) : Prop :=
  ∃ later, next.trace = g.trace ++ later ∧ later.filterMap Event.marked = marks

theorem Guest.Marks.refl (g : Guest Mark) : g.Marks g [] :=
  ⟨[], (List.append_nil _).symm, rfl⟩

theorem Guest.Marks.trans {g middle last : Guest Mark} {first second : List Mark}
    (one : g.Marks middle first) (other : middle.Marks last second) :
    g.Marks last (first ++ second) := by
  obtain ⟨before, grown, marked⟩ := one
  obtain ⟨after, again, remarked⟩ := other
  refine ⟨before ++ after, ?_, ?_⟩
  · rw [again, grown, List.append_assoc]
  · rw [List.filterMap_append, marked, remarked]

theorem Guest.Marks.length_le {g next : Guest Mark} {marks : List Mark}
    (grown : g.Marks next marks) : g.trace.length ≤ next.trace.length := by
  obtain ⟨later, longer, -⟩ := grown
  rw [longer, List.length_append]
  exact Nat.le_add_right _ _

theorem Guest.marks_log (g : Guest Mark) (event : Event Mark) :
    g.Marks (g.log event) event.marked.toList := by
  refine ⟨[event], rfl, ?_⟩
  cases known : event.marked <;> simp [known]

theorem marks_pciDmaRead (dma : Dma Mark) (g : Guest Mark) (address : Address)
    (buffer : List Byte) : g.Marks (pciDmaRead dma g address buffer).2.2 [] := by
  unfold pciDmaRead
  split <;> exact g.marks_log _

theorem marks_pciDmaWrite (dma : Dma Mark) (g : Guest Mark) (address : Address)
    (data : List Byte) : g.Marks (pciDmaWrite dma g address data).2 [] := by
  unfold pciDmaWrite
  split <;> exact ⟨_, rfl, rfl⟩

/-- The marks by which the trace grew show the values of consecutive positions. -/
def Guest.Shows {Value : Type} (view : Mark → Option Value) (value : Nat → Value)
    (position count : Nat) (g next : Guest Mark) : Prop :=
  ∃ marks, g.Marks next marks ∧ marks.filterMap view = (List.range' position count).map value

section Shows

variable {Value : Type} {view : Mark → Option Value} {value : Nat → Value}

theorem Guest.Shows.none (position : Nat) (g : Guest Mark) : g.Shows view value position 0 g :=
  ⟨[], .refl g, rfl⟩

theorem Guest.Shows.trans {position first second : Nat} {g middle next : Guest Mark}
    (one : g.Shows view value position first middle)
    (other : middle.Shows view value (position + first) second next) :
    g.Shows view value position (first + second) next := by
  obtain ⟨before, marks, shown⟩ := one
  obtain ⟨after, remarks, later⟩ := other
  refine ⟨before ++ after, marks.trans remarks, ?_⟩
  rw [List.filterMap_append, shown, later, ← List.map_append, List.range'_append_1]

/-- What is shown is what the later part of the trace marks. -/
theorem Guest.Shows.drop {position count : Nat} {g next : Guest Mark}
    (shows : g.Shows view value position count next) :
    ((next.trace.drop g.trace.length).filterMap Event.marked).filterMap view =
      (List.range' position count).map value := by
  obtain ⟨marks, ⟨later, grown, marked⟩, shown⟩ := shows
  rw [grown, List.drop_left, marked, shown]

end Shows

/-- The trace grew by turns of a loop, each of which has the given shape. -/
def Guest.Turns (g : Guest Mark) (Turn : List (Event Mark) → Prop) (next : Guest Mark) : Prop :=
  ∃ turns : List (List (Event Mark)), (∀ turn ∈ turns, Turn turn) ∧
    next.trace = g.trace ++ turns.flatten

theorem Guest.Turns.none {g next : Guest Mark} (Turn : List (Event Mark) → Prop)
    (same : next.trace = g.trace) : g.Turns Turn next :=
  ⟨[], by simp, by simp [same]⟩

theorem Guest.Turns.one {g next : Guest Mark} {Turn : List (Event Mark) → Prop}
    {turn : List (Event Mark)} (taken : Turn turn) (grown : next.trace = g.trace ++ turn) :
    g.Turns Turn next :=
  ⟨[turn], by simpa using taken, by simpa using grown⟩

theorem Guest.Turns.trans {g middle last : Guest Mark} {Turn : List (Event Mark) → Prop}
    (first : g.Turns Turn middle) (second : middle.Turns Turn last) : g.Turns Turn last := by
  obtain ⟨before, shaped, grown⟩ := first
  obtain ⟨after, formed, again⟩ := second
  refine ⟨before ++ after, ?_, ?_⟩
  · intro turn member
    rcases List.mem_append.mp member with early | late
    · exact shaped turn early
    · exact formed turn late
  · rw [again, grown, List.flatten_append, List.append_assoc]

/-- An event in the grown part of the trace lies in one of the turns. -/
theorem Guest.Turns.split {g next : Guest Mark} {Turn : List (Event Mark) → Prop}
    {later before after : List (Event Mark)} {event : Event Mark} (turned : g.Turns Turn next)
    (grown : next.trace = g.trace ++ later) (split : later = before ++ event :: after) :
    ∃ front early late, before = front ++ early ∧ Turn (early ++ event :: late) := by
  obtain ⟨turns, shaped, longer⟩ := turned
  have flat : turns.flatten = before ++ event :: after :=
    (List.append_cancel_left (longer.symm.trans grown)).trans split
  rcases List.flatten_eq_append_iff.mp flat with ⟨front, rest, rfl, rfl, starts⟩ |
    ⟨front, early, first, late, rest, rfl, rfl, same⟩
  · obtain ⟨empty, late, others, rfl, -, -⟩ := List.flatten_eq_cons_iff.mp starts.symm
    refine ⟨front.flatten, [], late, (List.append_nil _).symm, shaped _ ?_⟩
    simp
  · obtain ⟨rfl, -⟩ := List.cons.inj same
    exact ⟨front.flatten, early, late, rfl, shaped _ (by simp)⟩

/-- Two kinds of events that are as many in every turn are as many in the grown part of the
trace. -/
theorem Guest.Turns.counts {g next : Guest Mark} {Turn : List (Event Mark) → Prop}
    {later : List (Event Mark)} {one other : Event Mark → Bool} (turned : g.Turns Turn next)
    (grown : next.trace = g.trace ++ later)
    (same : ∀ turn, Turn turn → turn.countP one = turn.countP other) :
    later.countP one = later.countP other := by
  obtain ⟨turns, shaped, longer⟩ := turned
  have flat : turns.flatten = later := List.append_cancel_left (longer.symm.trans grown)
  rw [← flat, List.countP_flatten, List.countP_flatten]
  exact congrArg List.sum (List.map_congr_left fun turn member => same turn (shaped turn member))

end EduDevices
