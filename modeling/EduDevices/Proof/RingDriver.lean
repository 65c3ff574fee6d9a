import EduDevices.Construction.RingDriver
import EduDevices.Library.Areas
import EduDevices.Library.Refinement
import EduDevices.Proof.RingStatus

namespace EduDevices

namespace RingDmaDevice

open Areas

theorem toNat_slotIova {idx : Nat} (inside : idx < 16) :
    (slotIova idx).toNat = 0x100000 + 32 * idx := by
  have base : ringIova.toNat = 0x100000 := rfl
  rw [slotIova, BitVec.toNat_add, BitVec.toNat_ofNat, base]
  omega

theorem toNat_getSrcIova {idx : Nat} (inside : idx < 16) :
    (getSrcIova idx).toNat = 0x200000 + 8192 * idx := by
  have base : dataIova.toNat = 0x200000 := rfl
  have page : pageSize = 4096 := rfl
  rw [getSrcIova, BitVec.toNat_add, BitVec.toNat_ofNat, base, page]
  omega

theorem toNat_getDstIova {idx : Nat} (inside : idx < 16) :
    (getDstIova idx).toNat = 0x201000 + 8192 * idx := by
  have base : dataIova.toNat = 0x200000 := rfl
  have page : pageSize = 4096 := rfl
  rw [getDstIova, BitVec.toNat_add, BitVec.toNat_ofNat, base, page]
  omega

/-- An index has a slot of the ring and two pages to itself. -/
def Area (idx : Nat) (address : Address) : Prop :=
  Within (slotIova idx) 32 address ∨ Within (getSrcIova idx) 4096 address ∨
    Within (getDstIova idx) 4096 address

theorem area_iff {idx : Nat} (inside : idx < 16) (address : Address) :
    Area idx address ↔
      (0x100000 + 32 * idx ≤ address.toNat ∧ address.toNat < 0x100000 + 32 * idx + 32) ∨
      (0x200000 + 8192 * idx ≤ address.toNat ∧ address.toNat < 0x200000 + 8192 * idx + 8192) := by
  have slot := toNat_slotIova inside
  have src := toNat_getSrcIova inside
  have dst := toNat_getDstIova inside
  rw [Area, within_iff_toNat (by omega), within_iff_toNat (by omega), within_iff_toNat (by omega),
    slot, src, dst]
  omega

theorem separate_area : Separate 16 Area := by
  intro idx inside other bounded different address area shared
  rw [area_iff inside] at area
  rw [area_iff bounded] at shared
  omega

section Layout

variable {idx : Nat} (inside : idx < 16) {length : Nat} (fits : length ≤ 4096)

include inside fits

theorem apart_slot_src : Apart (slotIova idx) 32 (getSrcIova idx) length := by
  have slot := toNat_slotIova inside
  have src := toNat_getSrcIova inside
  exact apart_of_order (by omega) (by omega) (by omega)

theorem apart_slot_dst : Apart (slotIova idx) 32 (getDstIova idx) length := by
  have slot := toNat_slotIova inside
  have dst := toNat_getDstIova inside
  exact apart_of_order (by omega) (by omega) (by omega)

theorem apart_src_dst {other : Nat} (bounded : other ≤ 4096) :
    Apart (getSrcIova idx) length (getDstIova idx) other := by
  have src := toNat_getSrcIova inside
  have dst := toNat_getDstIova inside
  exact apart_of_order (by omega) (by omega) (by omega)

end Layout

/-- The descriptor that the host puts into a slot, with what stood in the reserved word. -/
def descFor (idx length : Nat) (last : Bool) (reserved : BitVec 32) : DmaDescriptor where
  srcAddrLo := (getSrcIova idx &&& 0xFFFFFFFF).setWidth 32
  srcAddrHi := (getSrcIova idx >>> 32).setWidth 32
  dstAddrLo := (getDstIova idx &&& 0xFFFFFFFF).setWidth 32
  dstAddrHi := (getDstIova idx >>> 32).setWidth 32
  length := BitVec.ofNat 32 length
  flags := if last then descFlagValid ||| descFlagInt else descFlagValid
  status := descStatusPending
  reserved := reserved

section Descriptor

variable (idx : Nat) (last : Bool) (reserved : BitVec 32)

/-- An address is split into two words and put together again. -/
theorem join_halves (address : Address) :
    (((address >>> 32).setWidth 32).setWidth 64 <<< 32) |||
      ((address &&& 0xFFFFFFFF).setWidth 32).setWidth 64 = address := by
  have mask : (0xFFFFFFFF : BitVec 64) = (BitVec.allOnes 32).setWidth 64 := by decide
  apply BitVec.eq_of_getLsbD_eq
  intro position inside
  rw [BitVec.getLsbD_or, BitVec.getLsbD_shiftLeft, BitVec.getLsbD_setWidth, BitVec.getLsbD_setWidth,
    BitVec.getLsbD_ushiftRight, BitVec.getLsbD_setWidth, BitVec.getLsbD_setWidth, BitVec.getLsbD_and,
    mask, BitVec.getLsbD_setWidth, BitVec.getLsbD_allOnes]
  by_cases low : position < 32
  · simp [low, inside]
  · have back : 32 + (position - 32) = position := by omega
    simp [low, inside, back, show position - 32 < 32 by omega, show position - 32 < 64 by omega]

@[simp] theorem srcAddr_descFor (length : Nat) :
    (descFor idx length last reserved).srcAddr = getSrcIova idx :=
  join_halves _

@[simp] theorem dstAddr_descFor (length : Nat) :
    (descFor idx length last reserved).dstAddr = getDstIova idx :=
  join_halves _

theorem len_descFor {length : Nat} (fits : length ≤ 4096) :
    (descFor idx length last reserved).len.toNat = length := by
  rw [DmaDescriptor.len, toNat_cappedLen]
  show min (BitVec.ofNat 32 length).toNat 4096 = length
  rw [BitVec.toNat_ofNat]
  omega

theorem valid_descFor (length : Nat) : (descFor idx length last reserved).Valid := by
  have set : ∀ last : Bool,
      (if last then descFlagValid ||| descFlagInt else descFlagValid) &&& descFlagValid ≠ 0 := by
    decide
  exact set last

/-- Only the last descriptor of a batch raises the interrupt. -/
theorem notices_descFor (length : Nat) {s : EduPciState} (notifies : s.parentObj.msixEnabled = true) :
    (descFor idx length last reserved).notices s = if last then [.msixNotify 1] else [] := by
  have asks : ∀ last : Bool,
      (if last then descFlagValid ||| descFlagInt else descFlagValid) &&& descFlagInt ≠ 0 ↔ last := by
    decide
  rw [DmaDescriptor.notices, notifies]
  exact if_congr ((and_iff_left rfl).trans (asks last)) rfl rfl

end Descriptor

/-- The words that the host sets, and any word behind them, are the descriptor. -/
theorem decode_filled (desc : DmaDescriptor) (behind : List Byte) :
    DmaDescriptor.decode (([desc.srcAddrLo, desc.srcAddrHi, desc.dstAddrLo, desc.dstAddrHi,
      desc.length, desc.flags, desc.status] : List (BitVec 32)).flatMap (littleEndian 4) ++ behind) =
        { desc with reserved := wordAt 32 behind 0 } := by
  have words (word : BitVec 32) : fromLittleEndian 32 (littleEndian 4 word) = word :=
    fromLittleEndian_littleEndian 4 word (by decide)
  simp only [List.flatMap_cons, List.flatMap_nil]
  simp [DmaDescriptor.decode, wordAt, List.drop_append, drop_littleEndian, words]

/-- A message waits in the buffer of its slot, whose descriptor is complete. -/
structure Loaded (memory : Memory) (idx : Nat) (message : List Byte) (last : Bool) : Prop where
  desc : ∃ reserved, DmaDescriptor.decode (memory.read (slotIova idx) 32) =
    descFor idx message.length last reserved
  src : memory.read (getSrcIova idx) message.length = message
  fits : message.length ≤ 4096

/-- The message has arrived in the other buffer, and the slot says so. -/
structure Delivered (memory : Memory) (idx : Nat) (message : List Byte) (last : Bool) : Prop where
  status : wordAt 32 (memory.read (slotIova idx) 32) 0x18 = descStatusComplete
  src : memory.read (getSrcIova idx) message.length = message
  dst : memory.read (getDstIova idx) message.length = message
  fits : message.length ≤ 4096

section Local

variable {memory other : Memory} {idx : Nat}
  (same : ∀ address, Area idx address → other address = memory address)

include same

theorem read_slot_congr : other.read (slotIova idx) 32 = memory.read (slotIova idx) 32 :=
  Memory.read_congr fun _ inside => same _ (.inl (within_add _ inside))

theorem read_src_congr {length : Nat} (fits : length ≤ 4096) :
    other.read (getSrcIova idx) length = memory.read (getSrcIova idx) length :=
  Memory.read_congr fun _ inside => same _ (.inr (.inl (within_add _ (inside.trans_le fits))))

theorem read_dst_congr {length : Nat} (fits : length ≤ 4096) :
    other.read (getDstIova idx) length = memory.read (getDstIova idx) length :=
  Memory.read_congr fun _ inside => same _ (.inr (.inr (within_add _ (inside.trans_le fits))))

end Local

theorem local_loaded : Local 16 Area Loaded := by
  intro memory other idx message last _ same loaded
  refine ⟨?_, ?_, loaded.fits⟩
  · rw [read_slot_congr same]
    exact loaded.desc
  · rw [read_src_congr same loaded.fits, loaded.src]

theorem local_delivered : Local 16 Area Delivered := by
  intro memory other idx message last _ same delivered
  refine ⟨?_, ?_, ?_, delivered.fits⟩
  · rw [read_slot_congr same, delivered.status]
  · rw [read_src_congr same delivered.fits, delivered.src]
  · rw [read_dst_congr same delivered.fits, delivered.dst]

section Fill

variable (dev : RingDmaDevice) {idx : Nat} (inside : idx < 16) {message : List Byte}
  (fits : message.length ≤ 4096) (last : Bool)

include inside fits

/-- Filling a slot loads its message. -/
theorem loaded_fillSlot : Loaded (fillSlot dev idx message last).guest.memory idx message last := by
  let pages := (dev.guest.memory.write (getSrcIova idx) message).write (getDstIova idx)
    (List.replicate pageSize 0)
  let words := ([(getSrcIova idx &&& 0xFFFFFFFF).setWidth 32, (getSrcIova idx >>> 32).setWidth 32,
    (getDstIova idx &&& 0xFFFFFFFF).setWidth 32, (getDstIova idx >>> 32).setWidth 32,
    BitVec.ofNat 32 message.length, if last then descFlagValid ||| descFlagInt else descFlagValid,
    descStatusPending] : List (BitVec 32)).flatMap (littleEndian 4)
  have length : words.length = 28 := by simp [words]
  have filled : (fillSlot dev idx message last).guest.memory = pages.write (slotIova idx) words := rfl
  rw [filled]
  refine ⟨?_, ?_, fits⟩
  · have slot := Memory.read_write_prefix pages (slotIova idx) words 32 (by omega) (by omega)
    rw [slot]
    exact ⟨_, decode_filled (descFor idx message.length last 0) _⟩
  · have apart : Apart (slotIova idx) words.length (getSrcIova idx) message.length := by
      rw [length]
      intro address within
      exact apart_slot_src inside fits address (Nat.lt_of_lt_of_le within (by decide))
    have page : Apart (getDstIova idx) (List.replicate pageSize (0 : Byte)).length (getSrcIova idx)
        message.length := by
      rw [List.length_replicate]
      exact (apart_src_dst inside fits (le_refl _)).symm
    rw [Memory.read_write_apart _ _ _ _ _ apart, Memory.read_write_apart _ _ _ _ _ page,
      Memory.read_write_same _ _ _ (fits.trans (by decide))]

omit inside in
theorem fillSlot_outside {address : Address} (outside : ¬ Area idx address) :
    (fillSlot dev idx message last).guest.memory address = dev.guest.memory address := by
  simp only [Area, not_or] at outside
  obtain ⟨slot, src, dst⟩ := outside
  simp only [fillSlot, VfioDevice.memcpy_memory]
  rw [Memory.write_outside, Memory.write_outside, Memory.write_outside]
  · exact fun within => src (Nat.lt_of_lt_of_le within fits)
  · rwa [List.length_replicate]
  · refine fun within => slot (Nat.lt_of_lt_of_le within ?_)
    simp

end Fill

section Batch

variable (dev : RingDmaDevice) {messages : List (List Byte)}

@[simp] theorem fillBatch_device (startIdx : BitVec 32) :
    (fillBatch dev startIdx messages).device = dev.device := by
  induction messages generalizing dev startIdx with
  | nil => rfl
  | cons message rest ih => exact ih _ _

@[simp] theorem fillBatch_events (startIdx : BitVec 32) :
    (fillBatch dev startIdx messages).events = dev.events := by
  induction messages generalizing dev startIdx with
  | nil => rfl
  | cons message rest ih => exact ih _ _

@[simp] theorem fillBatch_trace (startIdx : BitVec 32) :
    (fillBatch dev startIdx messages).guest.trace = dev.guest.trace := by
  induction messages generalizing dev startIdx with
  | nil => rfl
  | cons message rest ih => exact ih _ _

/-- The size of the ring divides the range of the index. -/
theorem slot_startIdx (startIdx : BitVec 32) :
    (startIdx % numDescriptors).toNat = startIdx.toNat % 16 := BitVec.toNat_umod

theorem slot_next {startIdx : BitVec 32} {first : Nat} (agree : startIdx.toNat % 16 = first % 16) :
    (startIdx + 1).toNat % 16 = (first + 1) % 16 := by
  rw [BitVec.toNat_add]
  show (startIdx.toNat + 1) % 2 ^ 32 % 16 = (first + 1) % 16
  omega

variable (fits : ∀ message ∈ messages, message.length ≤ 4096) {startIdx : BitVec 32} {first : Nat}
  (agree : startIdx.toNat % 16 = first % 16)

include fits agree

theorem fillBatch_outside {address : Address}
    (outside : ¬ Covers 16 Area first messages.length address) :
    (fillBatch dev startIdx messages).guest.memory address = dev.guest.memory address := by
  induction messages generalizing dev startIdx first with
  | nil => rfl
  | cons message rest ih =>
      rw [List.length_cons, covers_succ, not_or] at outside
      rw [fillBatch, ih _ (fun later member => fits later (List.mem_cons_of_mem message member))
        (slot_next agree) outside.2]
      apply fillSlot_outside dev (fits message List.mem_cons_self)
      rw [slot_startIdx, agree]
      exact outside.1

/-- A batch that fits in the ring is loaded as a whole. -/
theorem loaded_fillBatch (few : messages.length ≤ 16) :
    Along 16 Loaded (fillBatch dev startIdx messages).guest.memory first messages := by
  induction messages generalizing dev startIdx first with
  | nil => trivial
  | cons message rest ih =>
      have later : ∀ message ∈ rest, message.length ≤ 4096 :=
        fun other member => fits other (List.mem_cons_of_mem message member)
      have inside : first % 16 < 16 := Nat.mod_lt _ (by decide)
      rw [fillBatch, slot_startIdx, agree]
      refine ⟨?_, ih _ later (slot_next agree) (Nat.le_of_succ_le few)⟩
      apply local_loaded _ _ _ _ _ inside _
        (loaded_fillSlot dev inside (fits message List.mem_cons_self) rest.isEmpty)
      intro address area
      exact fillBatch_outside _ later (slot_next agree) (separate_area.behind few area)

end Batch

/-- The ring of the driver, with its interrupts on. -/
structure Configured (s : EduPciState) : Prop where
  ringAddr : s.ringAddr = ringIova
  ringSize : s.ringSize = 16
  notifies : s.parentObj.msixEnabled = true

section Turn

variable {dma : Dma DmaDescriptor} (ring : Mapped dma ringIova pageSize)
  (data : Mapped dma dataIova (pageSize * 16 * 2)) {s : EduPciState} {g : Guest DmaDescriptor}
  (configured : Configured s)

theorem Configured.descAddr_eq (configured : Configured s) {idx : Nat} (inside : idx < 16)
    (head : s.ringHead.toNat = idx) : descAddr s = slotIova idx := by
  rw [descAddr, BitVec.mul_comm, slotOffset_exact s.ringHead (by omega), configured.ringAddr, head]
  rfl

theorem inside_src {idx length : Nat} (inside : idx < 16) (fits : length ≤ 4096) :
    Inside dataIova (pageSize * 16 * 2) (getSrcIova idx) length := by
  have src := toNat_getSrcIova inside
  have base : dataIova.toNat = 0x200000 := rfl
  have page : pageSize = 4096 := rfl
  rw [Inside, src, base, page]
  omega

theorem inside_dst {idx length : Nat} (inside : idx < 16) (fits : length ≤ 4096) :
    Inside dataIova (pageSize * 16 * 2) (getDstIova idx) length := by
  have dst := toNat_getDstIova inside
  have base : dataIova.toNat = 0x200000 := rfl
  have page : pageSize = 4096 := rfl
  rw [Inside, dst, base, page]
  omega

/-- The status word lies in its slot. -/
theorem within_status {idx : Nat} {address : Address}
    (status : Within (slotIova idx + 0x18) 4 address) : Within (slotIova idx) 32 address := by
  unfold Within at status ⊢
  bv_omega

theorem inside_slot {idx : Nat} (inside : idx < 16) :
    Inside ringIova pageSize (slotIova idx) 32 := by
  have slot := toNat_slotIova inside
  have base : ringIova.toNat = 0x100000 := rfl
  have page : pageSize = 4096 := rfl
  rw [Inside, slot, base, page]
  omega

theorem inside_status {idx : Nat} (inside : idx < 16) :
    Inside ringIova pageSize (slotIova idx + 0x18) 4 := by
  have slot := toNat_slotIova inside
  have base : ringIova.toNat = 0x100000 := rfl
  have page : pageSize = 4096 := rfl
  have status : (slotIova idx + 0x18).toNat = 0x100018 + 32 * idx := by bv_omega
  rw [Inside, status, base, page]
  omega

include ring data configured

/-- One turn of the device delivers the message of the slot at the head. -/
theorem turn {idx : Nat} (inside : idx < 16) (head : s.ringHead.toNat = idx) {message : List Byte}
    {last : Bool} (loaded : Loaded g.memory idx message last) :
    ∃ next later, eduRingProcessOne dma s g = .ok (advanced s, next) ∧
      next.trace = g.trace ++ later ∧ Delivered next.memory idx message last ∧
      (∀ address, ¬ Area idx address → next.memory address = g.memory address) ∧
      (last = true → .msixNotify 1 ∈ later) := by
  obtain ⟨reserved, known⟩ := loaded.desc
  let desc := descFor idx message.length last reserved
  have slot : descAddr s = slotIova idx := configured.descAddr_eq inside head
  have src : desc.srcAddr = getSrcIova idx := srcAddr_descFor idx last reserved _
  have dst : desc.dstAddr = getDstIova idx := dstAddr_descFor idx last reserved _
  have len : desc.len.toNat = message.length := len_descFor idx last reserved loaded.fits
  have sized : s.ringSize ≠ 0 := by
    rw [configured.ringSize]
    decide
  have found : fetched dma s g = some desc := by
    rw [fetched_eq_some_iff, slot]
    exact ⟨ring.reads _ _ _ (inside_slot inside), valid_descFor idx last reserved _, known⟩
  have works : dma.readFault (handed s g desc).trace desc.srcAddr desc.len.toNat = none := by
    rw [src, len]
    exact data.reads _ _ _ (inside_src inside loaded.fits)
  let next := notified s desc (completed dma s g desc)
  obtain ⟨posted, grown⟩ := serves_read works
  have copied : next.memory.read desc.dstAddr desc.len.toNat =
      g.memory.read desc.srcAddr desc.len.toNat := by
    apply completed_copied works
    · rw [dst, len]
      exact data.writes _ _ _ (inside_dst inside loaded.fits)
    · rw [dst, len, slot]
      exact (apart_slot_dst inside loaded.fits).symm
  have kept : ∀ address, ¬ Within (getDstIova idx) message.length address →
      ¬ Within (slotIova idx + 0x18) 4 address → next.memory address = g.memory address := by
    intro address away quiet
    apply completed_memory
    · rwa [dst, len]
    · rwa [slot]
  have status : next.memory.read (slotIova idx + 0x18) 4 = littleEndian 4 descStatusComplete := by
    have word : (littleEndian 4 descStatusComplete).length = 4 := length_littleEndian 4 _
    show (notified s desc (completed dma s g desc)).memory.read _ 4 = _
    rw [notified_memory, completed_eq, transferred_read works, slot,
      pciDmaWrite_of_ok (by rw [word]; exact ring.writes _ _ _ (inside_status inside))]
    exact Memory.read_write_same _ _ (littleEndian 4 descStatusComplete) (by rw [word]; decide)
  refine ⟨next, _, eduRingProcessOne_executed found sized, grown, ⟨?_, ?_, ?_, loaded.fits⟩, ?_, ?_⟩
  · have word := Memory.slice_read next.memory (slotIova idx) (show 0x18 + 4 ≤ 32 by decide)
    rw [wordAt, word]
    show fromLittleEndian 32 (next.memory.read (slotIova idx + 0x18) 4) = _
    rw [status]
    exact fromLittleEndian_littleEndian 4 _ (by decide)
  · rw [← loaded.src, Memory.length_read]
    apply Memory.read_congr
    intro index low
    apply kept
    · exact apart_src_dst inside loaded.fits loaded.fits _ (within_add _ low)
    · exact fun reached => apart_slot_src inside loaded.fits _ (within_status reached)
        (within_add _ low)
  · rw [← dst]
    rw [len, src, loaded.src] at copied
    exact copied
  · intro address away
    simp only [Area, not_or] at away
    apply kept
    · exact fun reached => away.2.2 (Nat.lt_of_lt_of_le reached loaded.fits)
    · exact fun reached => away.1 (within_status reached)
  · intro asks
    rw [notices_descFor idx last reserved _ configured.notifies, if_pos asks]
    simp

end Turn

section Loop

variable {dma : Dma DmaDescriptor} (ring : Mapped dma ringIova pageSize)
  (data : Mapped dma dataIova (pageSize * 16 * 2))

include ring data

/-- The loop delivers every message of a batch and stops behind the last one. -/
theorem ringLoop_delivers {messages : List (List Byte)} {s : EduPciState} {g : Guest DmaDescriptor}
    {first remaining : Nat} (configured : Configured s) (enough : messages.length ≤ remaining)
    (few : messages.length < 16) (head : s.ringHead.toNat = first % 16)
    (tail : s.ringTail.toNat = (first + messages.length) % 16)
    (loaded : Along 16 Loaded g.memory first messages) :
    ∃ next later, ringLoop dma remaining s g = .ok (s.withHead s.ringTail, next) ∧
      next.trace = g.trace ++ later ∧ Along 16 Delivered next.memory first messages ∧
      (∀ address, ¬ Covers 16 Area first messages.length address →
        next.memory address = g.memory address) ∧
      (messages ≠ [] → .msixNotify 1 ∈ later) := by
  induction messages generalizing s g first remaining with
  | nil =>
      have level : s.ringHead = s.ringTail := BitVec.eq_of_toNat_eq (head.trans tail.symm)
      refine ⟨g, [], ?_, (List.append_nil _).symm, trivial, fun _ _ => rfl, fun none => absurd rfl none⟩
      rw [ringLoop_level _ level, ← level]
      rfl
  | cons message rest ih =>
      obtain ⟨remaining, rfl⟩ : ∃ less, remaining = less + 1 :=
        Nat.exists_eq_add_of_lt (Nat.lt_of_lt_of_le (Nat.succ_pos _) enough) |>.imp fun _ h => by omega
      rw [List.length_cons] at few enough tail
      have inside : first % 16 < 16 := Nat.mod_lt _ (by decide)
      have behind : s.ringHead ≠ s.ringTail := by
        intro level
        rw [level, tail] at head
        omega
      obtain ⟨middle, early, turned, grown, delivered, kept, raised⟩ :=
        turn ring data configured inside head loaded.1
      have moved : (advanced s).ringHead.toNat = (first + 1) % 16 := by
        rw [toNat_advanced s (by rw [head, configured.ringSize]; exact inside), head,
          configured.ringSize]
        exact Cyclic.slot_add first 1 16
      have waiting : Along 16 Loaded middle.memory (first + 1) rest :=
        loaded.2.congr local_loaded (by decide) fun address covered =>
          kept address fun area => separate_area.behind (Nat.lt_of_succ_lt few) area covered
      obtain ⟨next, late, looped, longer, arrived, spared, last⟩ := @ih (advanced s) middle
        (first + 1) remaining ⟨configured.ringAddr, configured.ringSize, configured.notifies⟩
        (Nat.le_of_succ_le_succ enough) (Nat.lt_of_succ_lt few) moved (by
          show s.ringTail.toNat = _
          rw [tail]
          congr 1
          omega) waiting
      refine ⟨next, early ++ late, ?_, ?_, ⟨?_, arrived⟩, ?_, ?_⟩
      · rw [ringLoop, if_pos behind, turned]
        exact looped
      · rw [longer, grown, List.append_assoc]
      · exact local_delivered _ _ _ _ _ inside (fun address area =>
          spared address (separate_area.behind (Nat.lt_of_succ_lt few) area)) delivered
      · intro address outside
        rw [List.length_cons, covers_succ, not_or] at outside
        rw [spared address outside.2, kept address outside.1]
      · intro _
        rw [List.mem_append]
        cases rest with
        | nil => exact .inl (raised rfl)
        | cons other more => exact .inr (last (List.cons_ne_nil other more))

end Loop

end RingDmaDevice

end EduDevices
