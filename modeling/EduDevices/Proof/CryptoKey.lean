import EduDevices.Proof.AesStandard
import EduDevices.Proof.CryptoRegisters

namespace EduDevices

/-- The value of the last write to an offset. -/
def lastWord (addr : BitVec 64) (writes : List HostWrite) : Option (BitVec 32) :=
  (writes.filter (·.addr = addr)).getLast?.map HostWrite.val

@[simp] theorem lastWord_nil (addr : BitVec 64) : lastWord addr [] = none := rfl

theorem lastWord_snoc (addr : BitVec 64) (writes : List HostWrite) (write : HostWrite) :
    lastWord addr (writes ++ [write]) =
      if write.addr = addr then some write.val else lastWord addr writes := by
  unfold lastWord
  rw [List.filter_append]
  by_cases same : write.addr = addr <;> simp [same]

/-- Writes to other offsets do not count. -/
theorem lastWord_append (addr : BitVec 64) (first second : List HostWrite)
    (other : ∀ write ∈ second, write.addr ≠ addr) :
    lastWord addr (first ++ second) = lastWord addr first := by
  have none : second.filter (·.addr = addr) = [] := by
    simpa [List.filter_eq_nil_iff] using other
  rw [lastWord, List.filter_append, none, List.append_nil]
  rfl

/-- A block of registers holds the last words that were written to it. -/
theorem getElem_foldl_blockWrite (base : BitVec 64) (writes : List HostWrite)
    (block : Aes.AesBlock) (i : Nat) (inside : i < 16) :
    (writes.foldl (fun block write => blockWrite base write block) block)[i] =
      match lastWord (wordOffset base (i / 4)) writes with
      | some val => byteOf val (i % 4)
      | none => block[i] := by
  induction writes using List.reverseRecOn with
  | nil => rfl
  | append_singleton writes write ih =>
      rw [List.foldl_append, lastWord_snoc]
      simp only [List.foldl_cons, List.foldl_nil, blockWrite, Vector.getElem_ofFn]
      by_cases hit : write.addr = wordOffset base (i / 4)
      · simp [hit]
      · simp only [if_neg hit]
        exact ih

/-- The registers after aligned writes are the effects of the writes, one after the other. -/
theorem run_registered (dma : Dma DmaDescriptor) (s : EduPciState) (g : Guest DmaDescriptor)
    {writes : List HostWrite} (aligned : ∀ write ∈ writes, write.Aligned) :
    (writes.foldl (cryptoAccess dma) (s, g)).1 = writes.foldl registered s := by
  induction writes using List.reverseRecOn with
  | nil => rfl
  | append_singleton writes write ih =>
      have before := ih fun write member => aligned write (List.mem_append_left _ member)
      rw [List.foldl_append, List.foldl_append, ← before]
      exact cryptoAccess_device dma _ _ (aligned write (by simp))

theorem foldl_registered_key (writes : List HostWrite) (s : EduPciState) :
    (writes.foldl registered s).cryptoKey =
      writes.foldl (fun block write => blockWrite regCryptoKey write block) s.cryptoKey :=
  (List.foldl_hom EduPciState.cryptoKey fun _ _ => rfl).symm

/-- Only a write of the last key word changes the round keys. -/
theorem foldl_registered_roundKeys (writes : List HostWrite) (s : EduPciState)
    (other : ∀ write ∈ writes, write.addr ≠ wordOffset regCryptoKey 3) :
    (writes.foldl registered s).roundKeys = s.roundKeys := by
  induction writes generalizing s with
  | nil => rfl
  | cons write rest ih =>
      have kept : (registered s write).roundKeys = s.roundKeys :=
        if_neg (other write List.mem_cons_self)
      exact (ih _ fun later member => other later (List.mem_cons_of_mem write member)).trans kept

/-- The round keys are the schedule of the key at the last write of the last key word. -/
theorem roundKeys_expanded (s : EduPciState) (before : List HostWrite) (write : HostWrite)
    (after : List HostWrite) (expands : write.addr = wordOffset regCryptoKey 3)
    (last : ∀ later ∈ after, later.addr ≠ wordOffset regCryptoKey 3) :
    ((before ++ write :: after).foldl registered s).roundKeys =
      Aes.aesKeyExpand ((before ++ [write]).foldl registered s).cryptoKey := by
  rw [List.foldl_append, List.foldl_append, List.foldl_cons,
    foldl_registered_roundKeys after _ last]
  exact if_pos expands

/-- The key that the words written since power-on spell; an unwritten word is zero. -/
def writtenKey (writes : List HostWrite) : Aes.AesBlock :=
  Vector.ofFn fun i =>
    byteOf ((lastWord (wordOffset regCryptoKey (i.val / 4)) writes).getD 0) (i.val % 4)

theorem cryptoKey_written (parentObj : PCIDevice) (writes : List HostWrite) :
    (writes.foldl registered (EduPciState.zeroed parentObj)).cryptoKey = writtenKey writes := by
  rw [foldl_registered_key]
  apply Vector.ext
  intro i inside
  rw [getElem_foldl_blockWrite, writtenKey, Vector.getElem_ofFn]
  cases lastWord (wordOffset regCryptoKey (i / 4)) writes with
  | some val => rfl
  | none => simp [EduPciState.zeroed, byteOf]

theorem byteOf_injective {first second : BitVec 32}
    (same : ∀ index < 4, byteOf first index = byteOf second index) : first = second := by
  have spelled (val : BitVec 32) : littleEndian 4 val = (List.range 4).map (byteOf val) := rfl
  rw [← fromLittleEndian_littleEndian 4 first (by decide),
    ← fromLittleEndian_littleEndian 4 second (by decide), spelled, spelled]
  congr 1
  exact List.map_congr_left fun index member => same index (List.mem_range.mp member)

/-- Two histories spell the same key when their last words agree. -/
theorem writtenKey_eq_iff (first second : List HostWrite) :
    writtenKey first = writtenKey second ↔
      ∀ word < 4, (lastWord (wordOffset regCryptoKey word) first).getD 0 =
        (lastWord (wordOffset regCryptoKey word) second).getD 0 := by
  constructor
  · intro same word inside
    apply byteOf_injective
    intro index low
    have quotient : (4 * word + index) / 4 = word := by omega
    have remainder : (4 * word + index) % 4 = index := by omega
    have byte : (writtenKey first)[4 * word + index] = (writtenKey second)[4 * word + index] := by
      simp only [same]
    simp only [writtenKey, Vector.getElem_ofFn, quotient, remainder] at byte
    exact byte
  · intro same
    apply Vector.ext
    intro i inside
    simp only [writtenKey, Vector.getElem_ofFn, same (i / 4) (by omega)]

/-- Some write to an offset is the last one. -/
theorem exists_last_write (addr : BitVec 64) (writes : List HostWrite)
    (written : ∃ write ∈ writes, write.addr = addr) :
    ∃ before write after, writes = before ++ write :: after ∧ write.addr = addr ∧
      ∀ later ∈ after, later.addr ≠ addr := by
  induction writes using List.reverseRecOn with
  | nil =>
      obtain ⟨write, member, -⟩ := written
      exact absurd member List.not_mem_nil
  | append_singleton writes last ih =>
      by_cases hit : last.addr = addr
      · exact ⟨writes, last, [], rfl, hit, fun later member => absurd member List.not_mem_nil⟩
      · obtain ⟨write, member, same⟩ := written
        rcases List.mem_append.mp member with earlier | now
        · obtain ⟨before, found, after, rfl, here, none⟩ := ih ⟨write, earlier, same⟩
          refine ⟨before, found, after ++ [last], by simp, here, ?_⟩
          intro later within
          rcases List.mem_append.mp within with old | new
          · exact none later old
          · rwa [List.mem_singleton.mp new]
        · exact absurd (List.mem_singleton.mp now ▸ same) hit

/-- The first three key words still have the values that they had when the last one was written. -/
def KeySettled (writes : List HostWrite) : Prop :=
  ∀ before write after, writes = before ++ write :: after →
    write.addr = wordOffset regCryptoKey 3 →
    (∀ later ∈ after, later.addr ≠ wordOffset regCryptoKey 3) →
    ∀ word < 3, (lastWord (wordOffset regCryptoKey word) before).getD 0 =
      (lastWord (wordOffset regCryptoKey word) writes).getD 0

/-- After a split at its last expansion, a history has current round keys exactly when the words
that it wrote later repeat the words before. -/
theorem roundKeys_current_iff (parentObj : PCIDevice) (before : List HostWrite)
    (write : HostWrite) (after : List HostWrite)
    (expands : write.addr = wordOffset regCryptoKey 3)
    (last : ∀ later ∈ after, later.addr ≠ wordOffset regCryptoKey 3) :
    let final := (before ++ write :: after).foldl registered (EduPciState.zeroed parentObj)
    final.roundKeys = Aes.aesKeyExpand final.cryptoKey ↔
      ∀ word < 3, (lastWord (wordOffset regCryptoKey word) before).getD 0 =
        (lastWord (wordOffset regCryptoKey word) (before ++ write :: after)).getD 0 := by
  dsimp only
  have whole : before ++ write :: after = before ++ [write] ++ after := by simp
  rw [roundKeys_expanded _ before write after expands last, cryptoKey_written, cryptoKey_written,
    Aes.aesKeyExpand_injective.eq_iff, writtenKey_eq_iff]
  -- The last key word is the one that the split write wrote.
  have fourth : lastWord (wordOffset regCryptoKey 3) (before ++ [write]) =
      lastWord (wordOffset regCryptoKey 3) (before ++ write :: after) := by
    rw [whole, lastWord_append _ _ _ last]
  have earlier (word : Nat) (inside : word < 3) :
      lastWord (wordOffset regCryptoKey word) (before ++ [write]) =
        lastWord (wordOffset regCryptoKey word) before := by
    rw [lastWord_snoc, if_neg]
    rw [expands, wordOffset_inj _ (by decide) (by omega)]
    omega
  constructor
  · intro same word inside
    rw [← earlier word inside]
    exact same word (by omega)
  · intro same word inside
    by_cases final : word = 3
    · rw [final, fourth]
    · rw [earlier word (by omega)]
      exact same word (by omega)

/-- The key in use is the key in the registers exactly when no key word changed after the last
write of the last key word. -/
theorem cryptoKey_inUse_iff (dma : Dma DmaDescriptor) (parentObj : PCIDevice)
    (g : Guest DmaDescriptor) (writes : List HostWrite)
    (aligned : ∀ write ∈ writes, write.Aligned)
    (complete : ∀ word < 4, ∃ write ∈ writes, write.addr = wordOffset regCryptoKey word) :
    let final := (writes.foldl (cryptoAccess dma) (EduPciState.zeroed parentObj, g)).1
    final.roundKeys = Aes.aesKeyExpand final.cryptoKey ↔ KeySettled writes := by
  dsimp only
  rw [run_registered dma _ g aligned]
  constructor
  · rintro current before write after rfl expands last
    exact (roundKeys_current_iff parentObj before write after expands last).mp current
  · intro settled
    obtain ⟨before, write, after, rfl, expands, last⟩ :=
      exists_last_write _ writes (complete 3 (by decide))
    exact (roundKeys_current_iff parentObj before write after expands last).mpr
      (settled before write after rfl expands last)

/-- In ascending order the key words leave the round keys current. -/
theorem cryptoKey_inUse_ascending :
    let writes : List HostWrite :=
      [⟨id, 0x20, 1⟩, ⟨id, 0x24, 2⟩, ⟨id, 0x28, 3⟩, ⟨id, 0x2C, 4⟩]
    let dma : Dma DmaDescriptor := DmaPattern.reliable.dma fun _ _ => 0
    let final := (writes.foldl (cryptoAccess dma) (EduPciState.zeroed ⟨true⟩, ⟨fun _ => 0, []⟩)).1
    final.roundKeys = Aes.aesKeyExpand final.cryptoKey ↔ KeySettled writes :=
  cryptoKey_inUse_iff _ _ _ _ (by decide) (by decide)

/-- Writing the last key word first leaves the round keys of another key in use. -/
theorem cryptoKey_stale_descending :
    ¬ ∀ (dma : Dma DmaDescriptor) (parentObj : PCIDevice) (g : Guest DmaDescriptor)
        (writes : List HostWrite), (∀ write ∈ writes, write.Aligned) →
      (∀ word < 4, ∃ write ∈ writes, write.addr = wordOffset regCryptoKey word) →
      let final := (writes.foldl (cryptoAccess dma) (EduPciState.zeroed parentObj, g)).1
      final.roundKeys = Aes.aesKeyExpand final.cryptoKey := by
  intro always
  have current := always (DmaPattern.reliable.dma fun _ _ => 0) ⟨true⟩ ⟨fun _ => 0, []⟩
    [⟨id, 0x2C, 4⟩, ⟨id, 0x28, 3⟩, ⟨id, 0x24, 2⟩, ⟨id, 0x20, 1⟩] (by decide) (by decide)
  dsimp only at current
  rw [run_registered _ _ _ (by decide)] at current
  have same := (roundKeys_current_iff ⟨true⟩ [] _ _ (by decide) (by decide)).mp current 0 (by decide)
  exact absurd same (by decide)

end EduDevices
