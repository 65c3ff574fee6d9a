import EduDevices.Library.RegisterFile
import EduDevices.Proof.CryptoSession
import EduDevices.Proof.FunctionIsolation

namespace EduDevices

open Execution (run)
open RegisterFile (put put_at put_embed put_fixed put_kept put_other put_unstored lastStored)

/-- What a function stores of a word that is written to the registers that both functions have. -/
def commonStored (addr : BitVec 64) (val : BitVec 32) : Option (BitVec 32) :=
  match addr with
  | regScratch | regDmaSrc | regDmaDst | regDmaLen => some val
  | regFactorial => some (factorial val)
  | _ => none

def bar0Stored (addr : BitVec 64) (val : BitVec 32) : Option (BitVec 32) :=
  match addr with
  | regP2pAddr | regP2pData | regAtsAddr => some val
  | _ => commonStored addr val

/-- A refused size is not stored, and the control register has one bit. -/
def ringStored (addr : BitVec 64) (val : BitVec 32) : Option (BitVec 32) :=
  match addr with
  | regRingAddrLo | regRingAddrHi => some val
  | regRingSize => if ringSizeAccepted (val.setWidth 64) then some val else none
  | regRingCtrl => some (val &&& 1)
  | _ => none

def cryptoStored (addr : BitVec 64) (val : BitVec 32) : Option (BitVec 32) :=
  match addr with
  | regCryptoSrcLo | regCryptoSrcHi | regCryptoDstLo | regCryptoDstHi | regCryptoLen => some val
  | _ => none

/-- What is stored of a word that is written to a register. -/
def BusRegister.stored : BusRegister → BitVec 32 → Option (BitVec 32)
  | physical .bar0 addr => bar0Stored addr
  | physical .bar4 addr => ringStored addr
  | physical .bar5 addr => cryptoStored addr
  | virtual _ addr => commonStored addr

/-- The registers that nothing but a write of the host to them changes: all but the progress of the
ring and the IV, into which a write to the key can run. -/
def BusRegister.Still : BusRegister → Prop
  | physical .bar0 _ => True
  | physical .bar4 addr => addr ≠ regRingStatus ∧ addr ≠ regRingHead ∧ addr ≠ regRingTail
  | physical .bar5 addr => ¬ (addr ≥ regCryptoIv ∧ addr < regCryptoIv + 16)
  | virtual _ _ => True

/-- Each half of a register that is written in two halves is a register of its own. -/
theorem low_halvesWrite {low high : BitVec 64} (distinct : low ≠ high) (write : HostWrite)
    (register : BitVec 64) :
    (halvesWrite low high write register &&& 0xFFFFFFFF).setWidth 32 =
      if write.addr = low then write.val else (register &&& 0xFFFFFFFF).setWidth 32 := by
  have mask : (0xFFFFFFFF : BitVec 64) = (BitVec.allOnes 32).setWidth 64 := by decide
  have masked (register : BitVec 64) :
      (register &&& 0xFFFFFFFF).setWidth 32 = register.setWidth 32 := by
    rw [mask, BitVec.setWidth_and, BitVec.setWidth_setWidth_of_le _ (by decide),
      BitVec.setWidth_eq, BitVec.and_allOnes]
  rw [masked, masked]
  apply BitVec.eq_of_getLsbD_eq
  intro position inside
  have written := getLsbD_halvesWrite distinct write register position (by omega)
  rw [if_pos inside, Nat.mod_eq_of_lt inside] at written
  rw [BitVec.getLsbD_setWidth, written]
  split <;> simp [inside]

theorem high_halvesWrite {low high : BitVec 64} (distinct : low ≠ high) (write : HostWrite)
    (register : BitVec 64) :
    (halvesWrite low high write register >>> 32).setWidth 32 =
      if write.addr = high then write.val else (register >>> 32).setWidth 32 := by
  apply BitVec.eq_of_getLsbD_eq
  intro position inside
  have upper : ¬ 32 + position < 32 := by omega
  have back : (32 + position) % 32 = position := by omega
  have written := getLsbD_halvesWrite distinct write register (32 + position) (by omega)
  rw [if_neg upper, back] at written
  rw [BitVec.getLsbD_setWidth, BitVec.getLsbD_ushiftRight, written]
  split <;> simp [inside]

section Windows

variable (dma : Dma DmaDescriptor) (unset : BitVec 64)

theorem eduPciWrite_unstored (s : EduPciState) (g : Guest DmaDescriptor) {addr : BitVec 64}
    (val : BitVec 32) (refused : bar0Stored addr val = none) (wide : BitVec 64) :
    (eduPciWrite dma s g addr wide).1 = s := by
  by_cases command : addr = regDmaCmd
  · rw [command, eduPciWrite_command]
  · unfold bar0Stored commonStored at refused
    unfold eduPciWrite
    split <;> first | contradiction | rfl | (split_ifs <;> rfl)

theorem read_bar0 (s : EduPciState) (g : Guest DmaDescriptor) (target : BitVec 64)
    (val : BitVec 32) (addr : BitVec 64) :
    pfRead unset (eduPciWrite dma s g target (val.setWidth 64)).1 .bar0 addr =
      put bar0Stored (pfRead unset s .bar0) (target, val) addr := by
  by_cases refused : bar0Stored target val = none
  · rw [eduPciWrite_unstored dma s g val refused, put_unstored _ refused]
  by_cases hit : addr = target
  · subst hit
    rw [put_at]
    unfold bar0Stored commonStored at refused
    split at refused
    case h_1 => exact setWidth_word val
    case h_2 => exact (setWidth_word _).trans (setWidth_word val)
    case h_3 => exact setWidth_word val
    split at refused
    case h_1 => exact (setWidth_word _).trans (setWidth_word val)
    case h_2 => exact setWidth_word val
    case h_3 => exact setWidth_word val
    case h_4 => exact (setWidth_word _).trans (setWidth_word val)
    case h_5 => exact (setWidth_word _).trans (congrArg factorial (setWidth_word val))
    case h_6 => exact absurd rfl refused
  · rw [put_other _ hit]
    unfold bar0Stored commonStored at refused
    unfold pfRead eduPciRead
    dsimp only
    split at refused
    -- Each of the eight writes changes one field, which is not the one that is read.
    iterate 3 unfold eduPciWrite; split <;> first | rfl | contradiction
    split at refused
    iterate 5 unfold eduPciWrite; split <;> first | rfl | contradiction
    exact absurd rfl refused

/-- The effect of a write on the configuration of the ring. -/
structure RingConfigured (s : EduPciState) (write : HostWrite) (next : EduPciState) : Prop where
  addr : next.ringAddr = halvesWrite regRingAddrLo regRingAddrHi write s.ringAddr
  size : next.ringSize = if write.Sizes then write.val else s.ringSize
  enabled : next.ringEnabled = if write.addr = regRingCtrl then write.val &&& 1 else s.ringEnabled

theorem enable_bit (val : BitVec 32) :
    (val.setWidth 64 &&& ringCtrlEnable).setWidth 32 = val &&& 1 := by
  rw [BitVec.setWidth_and, setWidth_word]
  rfl

/-- A write that returns configures the ring, whatever the engine makes of its progress. -/
theorem ringAccess_configured {s next : EduPciState} {g guest : Guest DmaDescriptor}
    {write : HostWrite} (taken : ringAccess dma (s, g) write = .ok (next, guest)) :
    RingConfigured s write next := by
  obtain ⟨host, addr, val⟩ := write
  by_cases tail : addr = regRingTail
  · subst tail
    by_cases sized : s.ringSize = 0
    · rw [ringAccess_unsized dma s g ⟨host, regRingTail, val⟩ rfl sized] at taken
      exact nomatch taken
    · rw [ringAccess, eduRingWrite_tail _ sized] at taken
      obtain ⟨ringHead, moved, returned⟩ := eduRingProcess_conditional dma
        (s.withTail ((val.setWidth 64 % s.ringSize.setWidth 64).setWidth 32)) (g.rewrite host)
        (s.ringEnabled ≠ 0)
      obtain rfl := congrArg Prod.fst (Except.ok.inj (taken.symm.trans returned))
      exact ⟨rfl, rfl, rfl⟩
  by_cases ctrl : addr = regRingCtrl
  · subst ctrl
    rw [ringAccess, eduRingWrite_ctrl] at taken
    obtain ⟨ringHead, moved, returned⟩ := eduRingProcess_conditional dma
      (s.withEnabled ((val.setWidth 64 &&& ringCtrlEnable).setWidth 32)) (g.rewrite host)
      ((val.setWidth 64 &&& ringCtrlEnable).setWidth 32 ≠ 0 ∧ s.ringHead ≠ s.ringTail)
    obtain rfl := congrArg Prod.fst (Except.ok.inj (taken.symm.trans returned))
    exact ⟨rfl, rfl, enable_bit val⟩
  by_cases size : addr = regRingSize
  · subst size
    by_cases accepted : ringSizeAccepted (val.setWidth 64)
    · have sizes : HostWrite.Sizes ⟨host, regRingSize, val⟩ := ⟨rfl, accepted⟩
      have returned : ringAccess dma (s, g) ⟨host, regRingSize, val⟩ = _ := if_pos accepted
      obtain rfl := congrArg Prod.fst (Except.ok.inj (taken.symm.trans returned))
      exact ⟨rfl, (setWidth_word val).trans (if_pos sizes).symm, rfl⟩
    · have refused : ¬ HostWrite.Sizes ⟨host, regRingSize, val⟩ := fun sizes => accepted sizes.2
      have returned : ringAccess dma (s, g) ⟨host, regRingSize, val⟩ = _ := if_neg accepted
      obtain rfl := congrArg Prod.fst (Except.ok.inj (taken.symm.trans returned))
      exact ⟨rfl, (if_neg refused).symm, rfl⟩
  have refused : ¬ HostWrite.Sizes ⟨host, addr, val⟩ := fun sizes => size sizes.1
  by_cases low : addr = regRingAddrLo
  · subst low
    obtain rfl := congrArg Prod.fst (Except.ok.inj taken)
    exact ⟨rfl, rfl, rfl⟩
  by_cases high : addr = regRingAddrHi
  · subst high
    obtain rfl := congrArg Prod.fst (Except.ok.inj taken)
    exact ⟨rfl, rfl, rfl⟩
  have returned : ringAccess dma (s, g) ⟨host, addr, val⟩ = .ok (s, g.rewrite host) := by
    unfold ringAccess eduRingWrite
    dsimp only
    split <;> first | contradiction | rfl
  obtain rfl := congrArg Prod.fst (Except.ok.inj (taken.symm.trans returned))
  refine ⟨?_, (if_neg refused).symm, (if_neg ctrl).symm⟩
  rw [halvesWrite, if_neg low, if_neg high]

theorem read_ring {s next : EduPciState} {write : HostWrite}
    (configured : RingConfigured s write next) {addr : BitVec 64}
    (still : (BusRegister.physical .bar4 addr).Still) :
    pfRead unset next .bar4 addr =
      put ringStored (pfRead unset s .bar4) (write.addr, write.val) addr := by
  obtain ⟨status, head, tail⟩ := still
  obtain ⟨base, size, enabled⟩ := configured
  change (eduRingRead next addr).setWidth 32 = _
  unfold eduRingRead
  split
  case h_1 =>
    rw [put_fixed _ _ fun _ => rfl]
    rfl
  case h_2 => exact absurd rfl status
  case h_3 =>
    rw [put_kept _ _ fun _ => rfl, base]
    exact low_halvesWrite (by decide) write s.ringAddr
  case h_4 =>
    rw [put_kept _ _ fun _ => rfl, base]
    exact high_halvesWrite (by decide) write s.ringAddr
  case h_5 =>
    rw [size, setWidth_word]
    by_cases hit : write.addr = regRingSize
    · rw [hit]
      by_cases accepted : ringSizeAccepted (write.val.setWidth 64)
      · have sizes : write.Sizes := ⟨hit, accepted⟩
        have stores : ringStored regRingSize write.val = some write.val := if_pos accepted
        rw [if_pos sizes]
        exact ((put_at _ regRingSize write.val).trans (by rw [stores]; rfl)).symm
      · have refused : ¬ write.Sizes := fun sizes => accepted sizes.2
        have drops : ringStored regRingSize write.val = none := if_neg accepted
        rw [if_neg refused]
        exact ((put_at _ regRingSize write.val).trans (by rw [drops]; exact setWidth_word _)).symm
    · have refused : ¬ write.Sizes := fun sizes => hit sizes.1
      rw [if_neg refused, put_other _ (Ne.symm hit)]
      exact (setWidth_word _).symm
  case h_6 => exact absurd rfl head
  case h_7 => exact absurd rfl tail
  case h_8 =>
    rw [enabled, setWidth_word]
    by_cases hit : write.addr = regRingCtrl
    · rw [if_pos hit, hit]
      rfl
    · rw [if_neg hit, put_other _ (Ne.symm hit)]
      exact (setWidth_word _).symm
  case h_9 =>
    rw [put_fixed _ _ fun _ => by unfold ringStored; split <;> first | contradiction | rfl]
    change _ = (eduRingRead s addr).setWidth 32
    unfold eduRingRead
    split <;> first | contradiction | rfl

/-- The effect of a write on the registers of the crypto engine that the key cannot reach. -/
structure CryptoConfigured (s : EduPciState) (write : HostWrite) (next : EduPciState) : Prop where
  src : next.cryptoSrc = halvesWrite regCryptoSrcLo regCryptoSrcHi write s.cryptoSrc
  dst : next.cryptoDst = halvesWrite regCryptoDstLo regCryptoDstHi write s.cryptoDst
  len : next.cryptoLen = if write.addr = regCryptoLen then write.val else s.cryptoLen
  busy : next.cryptoBusy = s.cryptoBusy

/-- The copy of a key or of an IV leaves the other registers. -/
theorem memcpyCrypto_registers (s : EduPciState) (offset : Nat) (data : List Byte) :
    (s.memcpyCrypto offset data).cryptoSrc = s.cryptoSrc ∧
      (s.memcpyCrypto offset data).cryptoDst = s.cryptoDst ∧
      (s.memcpyCrypto offset data).cryptoLen = s.cryptoLen ∧
      (s.memcpyCrypto offset data).cryptoBusy = s.cryptoBusy := by
  rw [EduPciState.memcpyCrypto]
  exact ⟨rfl, rfl, rfl, rfl⟩

theorem cryptoAccess_configured (s : EduPciState) (g : Guest DmaDescriptor) (write : HostWrite) :
    CryptoConfigured s write (cryptoAccess dma (s, g) write).1 := by
  obtain ⟨host, addr, val⟩ := write
  change CryptoConfigured s _ (eduCryptoWrite dma s (g.rewrite host) addr (val.setWidth 64) 4).1
  by_cases below : addr < regCryptoKey
  · rw [eduCryptoWrite_low dma s (g.rewrite host) host val below]
    exact ⟨rfl, rfl, rfl, rfl⟩
  have above := BitVec.not_lt.mp below
  have other := above_command above
  have halves (low high register : BitVec 64) (lower : low ≤ regCryptoCmd)
      (upper : high ≤ regCryptoCmd) :
      register = halvesWrite low high ⟨host, addr, val⟩ register := by
    rw [halvesWrite, if_neg (other low lower), if_neg (other high upper)]
  have same (next : EduPciState) (kept : next.cryptoSrc = s.cryptoSrc ∧
      next.cryptoDst = s.cryptoDst ∧ next.cryptoLen = s.cryptoLen ∧
      next.cryptoBusy = s.cryptoBusy) : CryptoConfigured s ⟨host, addr, val⟩ next :=
    ⟨kept.1.trans (halves _ _ _ (by decide) (by decide)),
      kept.2.1.trans (halves _ _ _ (by decide) (by decide)),
      kept.2.2.1.trans (if_neg (other _ (by decide))).symm, kept.2.2.2⟩
  rw [eduCryptoWrite_block dma s _ _ 4 other]
  -- The copy and the expansion stay closed: nothing here depends on the bytes that they give.
  have copy := memcpyCrypto_registers s
  generalize s.memcpyCrypto = copied at copy ⊢
  generalize Aes.aesKeyExpand = expand
  dsimp only
  split_ifs
  · exact same _ (copy _ _)
  · exact same _ (copy _ _)
  · exact same _ (copy _ _)
  · exact same _ ⟨rfl, rfl, rfl, rfl⟩

theorem read_crypto {s next : EduPciState} {write : HostWrite}
    (configured : CryptoConfigured s write next) {addr : BitVec 64}
    (still : (BusRegister.physical .bar5 addr).Still) :
    pfRead unset next .bar5 addr =
      put cryptoStored (pfRead unset s .bar5) (write.addr, write.val) addr := by
  obtain ⟨src, dst, len, busy⟩ := configured
  change (eduCryptoRead next addr 4 unset).setWidth 32 = _
  unfold eduCryptoRead
  split
  case h_1 =>
    rw [put_fixed _ _ fun _ => rfl]
    rfl
  case h_2 =>
    rw [put_fixed _ _ fun _ => rfl, busy]
    rfl
  case h_3 =>
    rw [put_kept _ _ fun _ => rfl, src]
    exact low_halvesWrite (by decide) write s.cryptoSrc
  case h_4 =>
    rw [put_kept _ _ fun _ => rfl, src]
    exact high_halvesWrite (by decide) write s.cryptoSrc
  case h_5 =>
    rw [put_kept _ _ fun _ => rfl, dst]
    exact low_halvesWrite (by decide) write s.cryptoDst
  case h_6 =>
    rw [put_kept _ _ fun _ => rfl, dst]
    exact high_halvesWrite (by decide) write s.cryptoDst
  case h_7 =>
    rw [put_kept _ _ fun _ => rfl, len, setWidth_word]
    exact congrArg (ite _ write.val) (setWidth_word _).symm
  case h_8 =>
    rw [put_fixed _ _ fun _ => rfl, busy]
    rfl
  case h_9 =>
    rw [put_fixed _ _ fun _ => by unfold cryptoStored; split <;> first | contradiction | rfl,
      if_neg still]
    change _ = (eduCryptoRead s addr 4 unset).setWidth 32
    unfold eduCryptoRead
    split <;> first | contradiction | rw [if_neg still]

theorem eduVfWrite_unstored (s : EduPciVfState) (g : Guest DmaDescriptor) {addr : BitVec 64}
    (val : BitVec 32) (refused : commonStored addr val = none) (wide : BitVec 64) :
    (eduVfWrite dma s g addr wide).1 = s := by
  by_cases command : addr = regDmaCmd
  · rw [command, eduVfWrite_command]
  · unfold commonStored at refused
    unfold eduVfWrite
    split <;> first | contradiction | rfl

theorem read_vf (vfNum : BitVec 16) (s : EduPciVfState) (g : Guest DmaDescriptor)
    (target : BitVec 64) (val : BitVec 32) (addr : BitVec 64) :
    vfRead vfNum (eduVfWrite dma s g target (val.setWidth 64)).1 addr =
      put commonStored (vfRead vfNum s) (target, val) addr := by
  by_cases refused : commonStored target val = none
  · rw [eduVfWrite_unstored dma s g val refused, put_unstored _ refused]
  by_cases hit : addr = target
  · subst hit
    rw [put_at]
    unfold commonStored at refused
    split at refused
    case h_1 => exact (setWidth_word _).trans (setWidth_word val)
    case h_2 => exact setWidth_word val
    case h_3 => exact setWidth_word val
    case h_4 => exact (setWidth_word _).trans (setWidth_word val)
    case h_5 => exact (setWidth_word _).trans (congrArg factorial (setWidth_word val))
    case h_6 => exact absurd rfl refused
  · rw [put_other _ hit]
    unfold commonStored at refused
    unfold vfRead eduVfRead
    split at refused
    iterate 5 unfold eduVfWrite; split <;> first | rfl | contradiction
    exact absurd rfl refused

theorem physical_injective (bar : Bar) : Function.Injective (BusRegister.physical bar) :=
  fun _ _ same => (BusRegister.physical.inj same).2

theorem virtual_injective (number : Nat) : Function.Injective (BusRegister.virtual number) :=
  fun _ _ same => (BusRegister.virtual.inj same).2

/-- A write to a window is one to the file of the window, and the other windows keep theirs. -/
theorem pfAccess_reads {states : ∀ f : BusFunction, f.State} {g guest : Guest DmaDescriptor}
    {access : PfWrite} {next : EduPciState}
    (taken : pfAccess dma (states .physical, g) access = .ok (next, guest)) {bar : Bar}
    {addr : BitVec 64} (still : (BusRegister.physical bar addr).Still) :
    pfRead unset next bar addr = put BusRegister.stored (BusRegister.read unset states)
      (BusRegister.target ⟨.physical, access⟩) (.physical bar addr) := by
  obtain ⟨target, write⟩ := access
  by_cases hit : bar = target
  · subst hit
    rw [BusRegister.target, put_embed (physical_injective bar)]
    cases bar with
    | bar0 =>
        obtain rfl := congrArg Prod.fst (Except.ok.inj taken)
        exact read_bar0 dma unset (states .physical) (g.rewrite write.host) write.addr write.val
          addr
    | bar4 => exact read_ring unset (ringAccess_configured dma taken) still
    | bar5 =>
        obtain rfl := congrArg Prod.fst (Except.ok.inj taken)
        exact read_crypto unset (cryptoAccess_configured dma (states .physical) g write) still
  · have elsewhere : BusRegister.physical bar addr ≠ .physical target write.addr :=
      fun same => hit (BusRegister.physical.inj same).1
    rw [BusRegister.target, put_other _ elsewhere, pfAccess_others taken]
    cases target <;> cases bar <;> first | contradiction | rfl

/-- A write to a virtual function is one to its file, and the other functions keep theirs. -/
theorem vfAccess_reads (states : ∀ f : BusFunction, f.State) (g : Guest DmaDescriptor)
    (number : Nat) (write : HostWrite) (other : Nat) (addr : BitVec 64) :
    vfRead (BitVec.ofNat 16 other) (Function.update states (.virtual number)
        (vfAccess dma (states (.virtual number), g) write).1 (.virtual other)) addr =
      put BusRegister.stored (BusRegister.read unset states)
        (BusRegister.target ⟨.virtual number, write⟩) (.virtual other addr) := by
  by_cases hit : other = number
  · subst hit
    rw [Function.update_self, BusRegister.target, put_embed (virtual_injective other)]
    exact read_vf dma _ (states (.virtual other)) (g.rewrite write.host) write.addr write.val addr
  · have elsewhere : BusRegister.virtual other addr ≠ .virtual number write.addr :=
      fun same => hit (BusRegister.virtual.inj same).1
    have apart : BusFunction.virtual other ≠ .virtual number :=
      fun same => hit (BusFunction.virtual.inj same)
    rw [Function.update_of_ne apart, BusRegister.target, put_other _ elsewhere]
    rfl

end Windows

/-- A write to any function changes no register but the one that it goes to. -/
theorem sriovAccess_reads (dma : BusFunction → Dma DmaDescriptor) (unset : BitVec 64)
    {machine next : (∀ f : BusFunction, f.State) × Guest DmaDescriptor}
    {access : Σ f : BusFunction, f.Write} (taken : sriovAccess dma machine access = .ok next)
    {register : BusRegister} (still : register.Still) :
    register.read unset next.1 = put BusRegister.stored (BusRegister.read unset machine.1)
      (BusRegister.target access) register := by
  obtain ⟨states, g⟩ := machine
  obtain ⟨f, write⟩ := access
  unfold sriovAccess sharedStep at taken
  dsimp only at taken
  cases moved : f.access (dma f) (states f, g) write with
  | error fault =>
      rw [moved] at taken
      exact nomatch taken
  | ok own =>
      rw [moved] at taken
      obtain rfl := Except.ok.inj taken
      cases f with
      | physical =>
          cases register with
          | physical bar addr => exact pfAccess_reads (dma .physical) unset moved still
          | virtual number addr => exact (put_other _ BusRegister.noConfusion).symm
      | virtual number =>
          obtain rfl := Except.ok.inj moved
          cases register with
          | physical bar addr => exact (put_other _ BusRegister.noConfusion).symm
          | virtual other addr =>
              exact vfAccess_reads (dma (.virtual number)) unset states g number write other addr

/-- In every run of all the functions, each of these registers reads as the word that was last
stored there, and as at the start if none was: no other write to the device, no copy, no descriptor
of the ring and no command of the crypto engine changes what the host reads there. -/
theorem registers_readBack (dma : BusFunction → Dma DmaDescriptor) (unset : BitVec 64)
    (states : ∀ f : BusFunction, f.State) (g : Guest DmaDescriptor)
    (schedule : List (Σ f : BusFunction, f.Write))
    (final : (∀ f : BusFunction, f.State) × Guest DmaDescriptor)
    (finished : run (sriovAccess dma) (states, g) schedule = .ok final)
    (register : BusRegister) (still : register.Still) :
    register.read unset final.1 =
      (lastStored BusRegister.stored register (schedule.map BusRegister.target)).getD
        (register.read unset states) :=
  RegisterFile.run_reads (fun machine register => register.read unset machine.1)
    BusRegister.target (fun _ _ _ taken _ => sriovAccess_reads dma unset taken) schedule finished
    still

/-- Two functions compute and one of them copies; the second size of the ring is refused. -/
def configuredInTurns : List (Σ f : BusFunction, f.Write) :=
  [⟨.physical, ⟨.bar0, ⟨id, regFactorial, 5⟩⟩⟩, ⟨.virtual 0, ⟨id, regFactorial, 4⟩⟩,
    ⟨.physical, ⟨.bar4, ⟨id, regRingSize, 4⟩⟩⟩, ⟨.physical, ⟨.bar4, ⟨id, regRingSize, 3⟩⟩⟩,
    ⟨.physical, ⟨.bar0, ⟨id, regDmaLen, 2⟩⟩⟩, ⟨.physical, ⟨.bar0, ⟨id, regDmaCmd, 1⟩⟩⟩,
    ⟨.physical, ⟨.bar5, ⟨id, regCryptoSrcHi, 7⟩⟩⟩]

theorem registers_readBack_inTurns : ∃ final,
    run (sriovAccess fun _ => reliableDma) (zeroedFunctions, mixedGuest) configuredInTurns =
      .ok final ∧
    (BusRegister.physical .bar0 regFactorial).read 0 final.1 = 120 ∧
    (BusRegister.virtual 0 regFactorial).read 0 final.1 = 24 ∧
    (BusRegister.physical .bar4 regRingSize).read 0 final.1 = 4 ∧
    (BusRegister.physical .bar5 regCryptoSrcHi).read 0 final.1 = 7 := by
  obtain ⟨final, finished⟩ : ∃ final,
      run (sriovAccess fun _ => reliableDma) (zeroedFunctions, mixedGuest) configuredInTurns =
        .ok final := ⟨_, rfl⟩
  have holds (register : BusRegister) (still : register.Still) :=
    registers_readBack (fun _ => reliableDma) 0 zeroedFunctions mixedGuest configuredInTurns final
      finished register still
  refine ⟨final, finished, ?_, ?_, ?_, ?_⟩
  · rw [holds (.physical .bar0 regFactorial) trivial]
    decide
  · rw [holds (.virtual 0 regFactorial) trivial]
    decide
  · rw [holds (.physical .bar4 regRingSize) ⟨by decide, by decide, by decide⟩]
    decide
  · rw [holds (.physical .bar5 regCryptoSrcHi) fun inside => absurd inside.1 (by decide)]
    decide

end EduDevices
