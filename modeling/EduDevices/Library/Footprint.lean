import EduDevices.Library.Dma

namespace EduDevices

variable {Mark Result Other : Type}

/-- A read that succeeds takes the bytes of its range from the memory. -/
def Event.readRange : Event Mark → Option (Address × Nat)
  | .dmaRead base data .ok => some (base, data.length)
  | _ => none

/-- A write may reach every byte of its range, whether it fails or not. -/
def Event.writeRange : Event Mark → Option (Address × Nat)
  | .dmaWrite base data _ => some (base, data.length)
  | _ => none

def readRanges (events : List (Event Mark)) : List (Address × Nat) :=
  events.filterMap Event.readRange

def writeRanges (events : List (Event Mark)) : List (Address × Nat) :=
  events.filterMap Event.writeRange

/-- The address lies in one of the ranges. -/
def Covered (ranges : List (Address × Nat)) (address : Address) : Prop :=
  ∃ range ∈ ranges, Within range.1 range.2 address

theorem covered_append (first second : List (Address × Nat)) (address : Address) :
    Covered (first ++ second) address ↔ Covered first address ∨ Covered second address := by
  simp only [Covered, List.mem_append, or_and_right, exists_or]

@[simp] theorem readRanges_append (first second : List (Event Mark)) :
    readRanges (first ++ second) = readRanges first ++ readRanges second :=
  List.filterMap_append

@[simp] theorem writeRanges_append (first second : List (Event Mark)) :
    writeRanges (first ++ second) = writeRanges first ++ writeRanges second :=
  List.filterMap_append

/-- The first events write to no range that the second ones read or write. -/
def Spare (first second : List (Event Mark)) : Prop :=
  ∀ written ∈ writeRanges first, ∀ range ∈ readRanges second ++ writeRanges second,
    Apart written.1 written.2 range.1 range.2

theorem Spare.read {first second : List (Event Mark)} (spare : Spare first second)
    {address : Address} (reached : Covered (readRanges second) address) :
    ¬ Covered (writeRanges first) address := by
  obtain ⟨range, member, inside⟩ := reached
  rintro ⟨written, listed, hit⟩
  exact spare written listed range (List.mem_append_left _ member) address hit inside

theorem Spare.written {first second : List (Event Mark)} (spare : Spare first second)
    {address : Address} (reached : Covered (writeRanges second) address) :
    ¬ Covered (writeRanges first) address := by
  obtain ⟨range, member, inside⟩ := reached
  rintro ⟨written, listed, hit⟩
  exact spare written listed range (List.mem_append_right _ member) address hit inside

namespace DmaPattern

/-- What a recorded write does to the memory. -/
def effect (pattern : DmaPattern) (memory : Memory) (event : Event Mark) : Memory :=
  match event with
  | .dmaWrite base data _ =>
      match pattern.writeFault base data.length with
      | none => memory.write base data
      | some landed => memory.store landed base data
  | _ => memory

def replay (pattern : DmaPattern) (memory : Memory) (events : List (Event Mark)) : Memory :=
  events.foldl pattern.effect memory

theorem replay_append (pattern : DmaPattern) (memory : Memory) (first second : List (Event Mark)) :
    pattern.replay memory (first ++ second) =
      pattern.replay (pattern.replay memory first) second :=
  List.foldl_append

theorem effect_congr (pattern : DmaPattern) {memory other : Memory} {address : Address}
    (same : memory address = other address) (event : Event Mark) :
    pattern.effect memory event address = pattern.effect other event address := by
  cases event with
  | dmaWrite base data result =>
      unfold effect
      dsimp only
      cases pattern.writeFault base data.length <;> simp only [Memory.write, Memory.store, same]
  | _ => exact same

/-- A byte after a replay depends on that byte before it only. -/
theorem replay_congr (pattern : DmaPattern) {memory other : Memory} {address : Address}
    (same : memory address = other address) (events : List (Event Mark)) :
    pattern.replay memory events address = pattern.replay other events address := by
  induction events generalizing memory other with
  | nil => exact same
  | cons event rest ih => exact ih (pattern.effect_congr same event)

theorem effect_outside (pattern : DmaPattern) (memory : Memory) {event : Event Mark}
    {address : Address} (outside : ∀ range ∈ event.writeRange, ¬ Within range.1 range.2 address) :
    pattern.effect memory event address = memory address := by
  cases event with
  | dmaWrite base data result =>
      have beyond : ¬ Within base data.length address := outside _ rfl
      unfold effect
      dsimp only
      cases pattern.writeFault base data.length with
      | none => exact Memory.write_outside memory base data address beyond
      | some landed => exact Memory.store_outside landed memory base data address beyond
  | _ => rfl

theorem replay_outside (pattern : DmaPattern) (memory : Memory) {events : List (Event Mark)}
    {address : Address} (outside : ¬ Covered (writeRanges events) address) :
    pattern.replay memory events address = memory address := by
  induction events generalizing memory with
  | nil => rfl
  | cons event rest ih =>
      have now : ∀ range ∈ event.writeRange, ¬ Within range.1 range.2 address :=
        fun range writes inside => outside
          ⟨range, List.mem_filterMap.mpr ⟨event, List.mem_cons_self, writes⟩, inside⟩
      have later : ¬ Covered (writeRanges rest) address := by
        rintro ⟨range, member, inside⟩
        obtain ⟨other, listed, writes⟩ := List.mem_filterMap.mp member
        exact outside ⟨range, List.mem_filterMap.mpr ⟨other, List.mem_cons_of_mem event listed,
          writes⟩, inside⟩
      exact (ih (pattern.effect memory event) later).trans (pattern.effect_outside memory now)

/-- What a failed read of a bounded length leaves in a local buffer is fixed by its address and
length as well. -/
def Settled (pattern : DmaPattern) (stack : List (Event Mark) → Nat → Byte) (longest : Nat) :
    Prop :=
  ∀ address length fill, length ≤ longest → pattern.readFault address length = some fill →
    ∀ index < length, ∀ trace other,
      (fill index).getD (stack trace index) = (fill index).getD (stack other index)

end DmaPattern

/-- A failed read of a bounded length overwrites its whole buffer. -/
def Overwrites (readFault : Address → Nat → Option (Nat → Option Byte)) (longest : Nat) : Prop :=
  ∀ address length fill, length ≤ longest → readFault address length = some fill →
    ∀ index < length, (fill index).isSome

/-- A buffer that is always overwritten shows nothing of what it held before. -/
theorem Overwrites.settled {readFault : Address → Nat → Option (Nat → Option Byte)} {longest : Nat}
    (overwrites : Overwrites readFault longest)
    (writeFault : Address → Nat → Option (Nat → Bool))
    (stack : List (Event Mark) → Nat → Byte) :
    (DmaPattern.mk readFault writeFault).Settled stack longest := by
  intro address length fill short fails index inside trace other
  obtain ⟨byte, filled⟩ :=
    Option.isSome_iff_exists.mp (overwrites address length fill short fails index inside)
  rw [filled]
  rfl

/-- The guest after some events were recorded. -/
def Guest.after (pattern : DmaPattern) (g : Guest Mark) (events : List (Event Mark)) : Guest Mark :=
  ⟨pattern.replay g.memory events, g.trace ++ events⟩

theorem Guest.after_nil (pattern : DmaPattern) (g : Guest Mark) : g.after pattern [] = g := by
  rw [Guest.after, List.append_nil]
  rfl

theorem Guest.after_append (pattern : DmaPattern) (g : Guest Mark)
    (first second : List (Event Mark)) :
    g.after pattern (first ++ second) = (g.after pattern first).after pattern second := by
  rw [Guest.after, pattern.replay_append, ← List.append_assoc]
  rfl

/-- The events that a guest recorded since an earlier point. -/
def Guest.gained (g next : Guest Mark) : List (Event Mark) := next.trace.drop g.trace.length

@[simp] theorem Guest.gained_after (pattern : DmaPattern) (g : Guest Mark)
    (events : List (Event Mark)) : g.gained (g.after pattern events) = events :=
  List.drop_left

/-- What an action does to the guest is what it records, and another guest that holds the same
bytes where it reads gets the same. -/
def Framed (pattern : DmaPattern)
    (action : Guest Mark → Except Fault (Result × Guest Mark)) : Prop :=
  ∀ g result next, action g = .ok (result, next) → ∃ later, ∀ h : Guest Mark,
    (∀ address, Covered (readRanges later) address → h.memory address = g.memory address) →
    action h = .ok (result, h.after pattern later)

namespace Framed

variable {pattern : DmaPattern}

/-- An action that always answers is framed when it answers alike on guests that agree. -/
theorem total {action : Guest Mark → Result × Guest Mark}
    (acts : ∀ g : Guest Mark, ∃ result later, ∀ h : Guest Mark,
      (∀ address, Covered (readRanges later) address → h.memory address = g.memory address) →
      action h = (result, h.after pattern later)) :
    Framed pattern fun g => .ok (action g) := by
  intro g result next taken
  obtain ⟨answer, later, follows⟩ := acts g
  have same : action g = (result, next) := Except.ok.inj taken
  obtain ⟨rfl, -⟩ := Prod.mk.inj (same.symm.trans (follows g fun _ _ => rfl))
  exact ⟨later, fun h agrees => congrArg Except.ok (follows h agrees)⟩

theorem pure (result : Result) : Framed pattern fun g : Guest Mark => .ok (result, g) :=
  total fun _ => ⟨result, [], fun h _ => by rw [h.after_nil]⟩

theorem error (fault : Fault) :
    Framed pattern fun _ : Guest Mark => (.error fault : Except Fault (Result × Guest Mark)) := by
  intro g result next taken
  cases taken

/-- What is recorded without a transfer leaves the memory alone. -/
theorem log (result : Result) {event : Event Mark}
    (quiet : ∀ memory, pattern.effect memory event = memory) :
    Framed pattern fun g => .ok (result, g.log event) := by
  refine total fun _ => ⟨result, [event], fun h _ => ?_⟩
  rw [Guest.after, DmaPattern.replay, List.foldl_cons, quiet]
  rfl

theorem write (stack : List (Event Mark) → Nat → Byte) (address : Address) (data : List Byte) :
    Framed pattern fun g => .ok (pciDmaWrite (pattern.dma stack) g address data) := by
  cases fault : pattern.writeFault address data.length with
  | none =>
      refine total fun _ => ⟨.ok, [.dmaWrite address data .ok], fun h _ => ?_⟩
      have works : (pattern.dma stack).writeFault h.trace address data.length = none := fault
      rw [pciDmaWrite_of_ok works, Guest.after, DmaPattern.replay, List.foldl_cons,
        DmaPattern.effect, fault]
      rfl
  | some landed =>
      refine total fun _ => ⟨.error, [.dmaWrite address data .error], fun h _ => ?_⟩
      rw [pciDmaWrite, DmaPattern.dma_writeFault, fault, Guest.after, DmaPattern.replay,
        List.foldl_cons, DmaPattern.effect, fault]
      rfl

theorem settled_buffer {stack : List (Event Mark) → Nat → Byte} {longest : Nat}
    (settled : pattern.Settled stack longest) {address : Address} {length : Nat}
    (short : length ≤ longest) {fill : Nat → Option Byte}
    (fault : pattern.readFault address length = some fill) (g h : Guest Mark) :
    ((stackBuffer (pattern.dma stack) h length).mapIdx fun index old => (fill index).getD old) =
      (stackBuffer (pattern.dma stack) g length).mapIdx fun index old => (fill index).getD old := by
  apply List.ext_getElem
  · simp
  · intro index inside _
    have within : index < length := by simpa using inside
    simp only [List.getElem_mapIdx, stackBuffer, List.getElem_map, List.getElem_range]
    exact settled address length fill short fault index within h.trace g.trace

/-- A read into a fresh buffer gives the same data wherever the same bytes are. -/
theorem read {stack : List (Event Mark) → Nat → Byte} {longest : Nat}
    (settled : pattern.Settled stack longest) (address : Address) {length : Nat}
    (short : length ≤ longest) :
    Framed pattern fun g =>
      let read := pciDmaRead (pattern.dma stack) g address
        (stackBuffer (pattern.dma stack) g length)
      .ok ((read.1, read.2.1), read.2.2) := by
  apply total
  intro g
  cases fault : pattern.readFault address length with
  | none =>
      let data := g.memory.read address length
      refine ⟨(.ok, data), [.dmaRead address data .ok], fun h agrees => ?_⟩
      have same : h.memory.read address length = data := by
        apply Memory.read_congr
        intro index inside
        apply agrees
        refine ⟨(address, data.length), List.mem_singleton_self _, ?_⟩
        rw [Memory.length_read]
        exact within_add address inside
      have works : (pattern.dma stack).readFault h.trace address
          (stackBuffer (pattern.dma stack) h length).length = none := by
        rw [length_stackBuffer]
        exact fault
      rw [pciDmaRead_of_ok works, length_stackBuffer, same]
      rfl
  | some fill =>
      let data := (stackBuffer (pattern.dma stack) g length).mapIdx
        fun index old => (fill index).getD old
      refine ⟨(.error, data), [.dmaRead address data .error], fun h _ => ?_⟩
      have fails : (pattern.dma stack).readFault h.trace address
          (stackBuffer (pattern.dma stack) h length).length = some fill := by
        rw [length_stackBuffer]
        exact fault
      rw [pciDmaRead_of_error fails, settled_buffer settled short fault g h]
      rfl

theorem conditional (condition : Prop) [Decidable condition]
    {first second : Guest Mark → Except Fault (Result × Guest Mark)}
    (one : condition → Framed pattern first) (other : ¬ condition → Framed pattern second) :
    Framed pattern fun g => if condition then first g else second g := by
  by_cases holds : condition
  · simpa only [if_pos holds] using one holds
  · simpa only [if_neg holds] using other holds

/-- Two framed actions in a row are framed. -/
theorem bind {first : Guest Mark → Except Fault (Other × Guest Mark)}
    {k : Other → Guest Mark → Except Fault (Result × Guest Mark)}
    (one : Framed pattern first) (onward : ∀ result, Framed pattern (k result)) :
    Framed pattern fun g => (first g).bind fun out => k out.1 out.2 := by
  intro g result next taken
  dsimp only at taken
  cases started : first g with
  | error fault =>
      rw [started] at taken
      cases taken
  | ok middle =>
      rw [started] at taken
      obtain ⟨early, follows⟩ := one g middle.1 middle.2 started
      obtain ⟨late, goes⟩ := onward middle.1 middle.2 result next taken
      have reached : middle.2 = g.after pattern early :=
        congrArg Prod.snd (Except.ok.inj (started.symm.trans (follows g fun _ _ => rfl)))
      refine ⟨early ++ late, fun h agrees => ?_⟩
      have before := follows h fun address read =>
        agrees address (by
          rw [readRanges_append, covered_append]
          exact .inl read)
      have after := goes (h.after pattern early) fun address read => by
        rw [reached]
        apply pattern.replay_congr
        apply agrees
        rw [readRanges_append, covered_append]
        exact .inr read
      rw [h.after_append]
      dsimp only
      rw [before]
      exact after

end Framed

end EduDevices
