import EduDevices.Library.Execution
import EduDevices.Proof.CryptoRegisters

namespace EduDevices

/-- Two states that differ in the key and its schedule at most. -/
def EduPciState.SameButKey (s t : EduPciState) : Prop :=
  t = { s with cryptoKey := t.cryptoKey, roundKeys := t.roundKeys }

/-- The same access by two guests, except for what is written to the key. -/
inductive GuestAccess.SameButKey : GuestAccess → GuestAccess → Prop where
  | read (host other : Memory → Memory) (addr : BitVec 64) (width : AccessWidth)
      (unset residue : BitVec 64) (aligned : addr.toNat % width.bytes = 0) :
      SameButKey ⟨host, addr, width, .read unset, aligned⟩
        ⟨other, addr, width, .read residue, aligned⟩
  | write (host other : Memory → Memory) (addr : BitVec 64) (width : AccessWidth)
      (val changed : BitVec 64) (aligned : addr.toNat % width.bytes = 0)
      (elsewhere : ¬ (regCryptoKey ≤ addr ∧ addr < regCryptoKey + 16) → val = changed) :
      SameButKey ⟨host, addr, width, .write val, aligned⟩
        ⟨other, addr, width, .write changed, aligned⟩

theorem AccessWidth.bytes_le (width : AccessWidth) : width.bytes ≤ 4 := by
  cases width <;> decide

/-- An aligned access that starts in a block of sixteen bytes ends in it. -/
theorem aligned_inside {width : AccessWidth} {addr base : BitVec 64}
    (aligned : addr.toNat % width.bytes = 0) (whole : base.toNat % 4 = 0)
    (small : base.toNat < 2 ^ 63) (start : base ≤ addr) (stop : addr < base + 16) :
    (addr - base).toNat + width.bytes ≤ 16 := by
  obtain ⟨difference, above, below⟩ := block_offset small start stop
  rw [difference]
  cases width <;> simp only [AccessWidth.bytes] at aligned ⊢ <;> omega

theorem getLsbD_cut (width : AccessWidth) (val : BitVec 64) (position : Nat) :
    (width.cut val).getLsbD position =
      (decide (position < 8 * width.bytes) && val.getLsbD position) := by
  have fits : 8 * width.bytes ≤ 64 := by
    have bound := width.bytes_le
    omega
  simp only [AccessWidth.cut, BitVec.getLsbD_setWidth]
  by_cases inside : position < 8 * width.bytes
  · simp [inside, show position < 64 by omega]
  · simp [inside]

/-- What is cut off is zero. -/
theorem littleEndian_cut_beyond (width : AccessWidth) (val : BitVec 64) (index : Nat) (old : Byte)
    (beyond : width.bytes ≤ index) :
    (littleEndian 4 (width.cut val)).getD index old = if index < 4 then 0 else old := by
  split
  next inside =>
    rw [List.getD_eq_getElem _ _ (by simpa using inside)]
    simp only [littleEndian, List.getElem_map, List.getElem_range]
    apply BitVec.eq_of_getLsbD_eq
    intro position _
    have outside : ¬ 8 * index + position < 8 * width.bytes := by omega
    simp [getLsbD_cut, outside]
  next outside =>
    rw [List.getD_eq_default]
    simpa using Nat.le_of_not_lt outside

/-- A cut word depends on the bytes that are left of it only. -/
theorem cut_fromLittleEndian {width : AccessWidth} {first second : List Byte}
    (same : ∀ index < width.bytes, first.getD index 0 = second.getD index 0) :
    width.cut (fromLittleEndian 64 first) = width.cut (fromLittleEndian 64 second) := by
  apply BitVec.eq_of_getLsbD_eq
  intro position _
  rw [getLsbD_cut, getLsbD_cut]
  by_cases inside : position < 8 * width.bytes
  · rw [getLsbD_fromLittleEndian, getLsbD_fromLittleEndian, same (position / 8) (by omega)]
  · simp [inside]

/-- The copy changes an IV byte as far as its data reaches it. -/
theorem getElem_memcpyCrypto_iv (s : EduPciState) (offset : Nat) (data : List Byte) (i : Nat)
    (inside : i < 16) :
    (s.memcpyCrypto offset data).cryptoIv[i] =
      if offset ≤ 16 + i then data.getD (16 + i - offset) s.cryptoIv[i] else s.cryptoIv[i] := by
  have old : (s.cryptoKey ++ s.cryptoIv ++ s.roundKeys)[16 + i] = s.cryptoIv[i] := by
    rw [getElem_joined, dif_neg (by omega), dif_pos (by omega)]
    simp only [Nat.add_sub_cancel_left]
    rfl
  simp only [EduPciState.memcpyCrypto, getElem_memcpy, Vector.getElem_ofFn, old]

/-- The bytes of an IV read that come from the IV itself. -/
theorem ivBytes_getD (s : EduPciState) (unset : BitVec 64) {idx index : Nat}
    (inside : idx + index < 16) (copied : index < 4) :
    ((((s.cryptoIv ++ s.roundKeys).toList.drop idx).take 4) ++
      (littleEndian 8 unset).drop 4).getD index 0 = s.cryptoIv[idx + index] := by
  have length : (s.cryptoIv ++ s.roundKeys).toList.length = 192 := Vector.length_toList
  have reach : index < (((s.cryptoIv ++ s.roundKeys).toList.drop idx).take 4).length := by
    rw [List.length_take, List.length_drop, length]
    omega
  rw [List.getD_append _ _ _ _ reach, List.getD_eq_getElem _ _ reach, List.getElem_take,
    List.getElem_drop, Vector.getElem_toList, Vector.getElem_append, dif_pos inside]

theorem EduPciState.SameButKey.eq {s t : EduPciState} (same : s.SameButKey t) :
    ∃ key rk, t = { s with cryptoKey := key, roundKeys := rk } :=
  ⟨t.cryptoKey, t.roundKeys, same⟩

theorem EduPciState.SameButKey.expanded {s t : EduPciState} (same : s.SameButKey t)
    (rk other : Aes.RoundKeys) :
    ({ s with roundKeys := rk } : EduPciState).SameButKey { t with roundKeys := other } := by
  obtain ⟨key, _, rfl⟩ := same.eq
  rfl

/-- A read shows no byte of the key or of its schedule. -/
theorem eduCryptoRead_sameButKey {s t : EduPciState} (same : s.SameButKey t) {addr : BitVec 64}
    {width : AccessWidth} (aligned : addr.toNat % width.bytes = 0) (unset residue : BitVec 64) :
    width.cut (eduCryptoRead s addr 4 unset) = width.cut (eduCryptoRead t addr 4 residue) := by
  obtain ⟨key, rk, rfl⟩ := same.eq
  unfold eduCryptoRead
  split <;> try rfl
  split
  next inside =>
    have fits := aligned_inside aligned (by decide) (by decide) inside.1 inside.2
    have narrow := width.bytes_le
    apply cut_fromLittleEndian
    intro index below
    rw [ivBytes_getD s unset (by omega) (by omega)]
    exact (ivBytes_getD { s with cryptoKey := key, roundKeys := rk } residue (by omega)
      (by omega)).symm
  next => rfl

/-- Copies that change the IV in the same way keep two states apart in the key only. -/
theorem memcpyCrypto_sameButKey {s t : EduPciState} (same : s.SameButKey t) {offset : Nat}
    {data changed : List Byte}
    (alike : ∀ i < 16, ∀ old, offset ≤ 16 + i →
      data.getD (16 + i - offset) old = changed.getD (16 + i - offset) old) :
    (s.memcpyCrypto offset data).SameButKey (t.memcpyCrypto offset changed) := by
  obtain ⟨key, rk, rfl⟩ := same.eq
  let other := { s with cryptoKey := key, roundKeys := rk }
  have iv : (other.memcpyCrypto offset changed).cryptoIv = (s.memcpyCrypto offset data).cryptoIv := by
    apply Vector.ext
    intro i inside
    rw [getElem_memcpyCrypto_iv, getElem_memcpyCrypto_iv]
    split
    next reached => exact (alike i inside _ reached).symm
    next => rfl
  unfold EduPciState.SameButKey
  rw [← iv]
  rfl

/-- A write keeps two states apart in the key only, when the values differ in the key only. -/
theorem eduCryptoWrite_sameButKey {s t : EduPciState} (same : s.SameButKey t)
    (dma other : Dma DmaDescriptor) (g h : Guest DmaDescriptor) {addr val changed : BitVec 64}
    {width : AccessWidth} (aligned : addr.toNat % width.bytes = 0)
    (elsewhere : ¬ (regCryptoKey ≤ addr ∧ addr < regCryptoKey + 16) → val = changed) :
    (eduCryptoWrite dma s g addr (width.cut val) 4).1.SameButKey
      (eduCryptoWrite other t h addr (width.cut changed) 4).1 := by
  by_cases key : regCryptoKey ≤ addr ∧ addr < regCryptoKey + 16
  · have fits := aligned_inside aligned (by decide) (by decide) key.1 key.2
    have copied : (s.memcpyCrypto (addr - regCryptoKey).toNat
          (littleEndian 4 (width.cut val))).SameButKey
        (t.memcpyCrypto (addr - regCryptoKey).toNat (littleEndian 4 (width.cut changed))) :=
      memcpyCrypto_sameButKey same fun i _ old _ => by
        rw [littleEndian_cut_beyond width val _ old (by omega),
          littleEndian_cut_beyond width changed _ old (by omega)]
    have reaches : ∀ register ≤ regCryptoCmd, addr ≠ register := by
      rintro register low rfl
      bv_omega
    rw [eduCryptoWrite_block dma s g _ 4 reaches, eduCryptoWrite_block other t h _ 4 reaches,
      if_pos key, if_pos key]
    dsimp only
    split
    next => exact copied.expanded _ _
    next => exact copied
  · obtain rfl := elsewhere key
    have iv : (s.memcpyCrypto (16 + (addr - regCryptoIv).toNat)
          (littleEndian 4 (width.cut val))).SameButKey
        (t.memcpyCrypto (16 + (addr - regCryptoIv).toNat) (littleEndian 4 (width.cut val))) :=
      memcpyCrypto_sameButKey same fun _ _ _ _ => rfl
    obtain ⟨key', rk, rfl⟩ := same.eq
    unfold eduCryptoWrite
    split
    case h_6 =>
      rw [eduCryptoCommand_device, eduCryptoCommand_device]
      rfl
    case h_7 =>
      rw [if_neg key, if_neg key]
      split
      next => exact iv
      next => rfl
    all_goals rfl

/-- What the guest reads in the course of its accesses. -/
def readResults (dma : Dma DmaDescriptor) :
    EduPciState × Guest DmaDescriptor → List GuestAccess → List (BitVec 64) :=
  Execution.observations (cryptoGuestAccess dma)

/-- Whatever the guest memories hold and the two buses do, aligned accesses that differ in the
values written to the key read the same from states that differ in the key. -/
theorem key_writeOnly (dma other : Dma DmaDescriptor) {s t : EduPciState} (same : s.SameButKey t)
    (g h : Guest DmaDescriptor) {accesses others : List GuestAccess}
    (matched : List.Forall₂ GuestAccess.SameButKey accesses others) :
    readResults dma (s, g) accesses = readResults other (t, h) others := by
  let alike (first second : EduPciState × Guest DmaDescriptor) := first.1.SameButKey second.1
  have start : alike (s, g) (t, h) := same
  refine Execution.observations_unwinding ?_ ?_ start matched
  · rintro ⟨s, g⟩ ⟨t, h⟩ a b alike pair
    cases pair with
    | read host rewritten addr width unset residue aligned =>
        exact congrArg some (eduCryptoRead_sameButKey alike aligned unset residue)
    | write => rfl
  · rintro ⟨s, g⟩ ⟨t, h⟩ a b alike pair
    cases pair with
    | read => exact alike
    | write host rewritten addr width val changed aligned elsewhere =>
        exact eduCryptoWrite_sameButKey alike dma other _ _ aligned elsewhere

/-- The guest writes a byte at the end of the key, a byte at the end of the IV and a command, and
reads the ends of the IV. -/
def keyProbe (key unset : BitVec 64) : List GuestAccess :=
  [⟨id, 0x2F, .byte, .write key, rfl⟩, ⟨id, 0x3F, .byte, .write 0x77, rfl⟩,
    ⟨id, 0x18, .word, .write 16, rfl⟩, ⟨id, 0x1C, .word, .write 3, rfl⟩,
    ⟨id, 0x30, .word, .read unset, rfl⟩, ⟨id, 0x3E, .half, .read unset, rfl⟩]

theorem keyProbe_sameButKey (key changed unset residue : BitVec 64) :
    List.Forall₂ GuestAccess.SameButKey (keyProbe key unset) (keyProbe changed residue) :=
  .cons (.write _ _ _ _ _ _ _ fun outside => absurd (by decide) outside) <|
  .cons (.write _ _ _ _ _ _ _ fun _ => rfl) <|
  .cons (.write _ _ _ _ _ _ _ fun _ => rfl) <|
  .cons (.write _ _ _ _ _ _ _ fun _ => rfl) <|
  .cons (.read ..) <| .cons (.read ..) .nil

theorem key_writeOnly_probed :
    let dma : Dma DmaDescriptor := DmaPattern.reliable.dma fun _ _ => 0
    let other : Dma DmaDescriptor := ⟨fun _ _ _ => some fun _ => none, fun _ _ _ => none, fun _ _ => 0x5A⟩
    let s := EduPciState.zeroed ⟨true⟩
    let t := { s with cryptoKey := Vector.replicate 16 0x5A, roundKeys := Vector.replicate 176 0x17 }
    let g : Guest DmaDescriptor := ⟨fun _ => 0, []⟩
    let h : Guest DmaDescriptor := ⟨fun address => address.setWidth 8, []⟩
    readResults dma (s, g) (keyProbe 0x11 0) = readResults other (t, h) (keyProbe 0x22 5) := by
  intro dma other s t g h
  have same : s.SameButKey t := rfl
  exact key_writeOnly dma other same g h (keyProbe_sameButKey 0x11 0x22 0 5)

end EduDevices
