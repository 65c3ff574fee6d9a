import EduDevices.Proof.CopyPaths
import EduDevices.Proof.CryptoSession
import EduDevices.Proof.RegisterWindows
import EduDevices.Proof.RingStatus

namespace EduDevices

open Execution

/-- The operations of the physical function, each with what it does to its guest from start to end.
The host raises some vectors by hand. -/
inductive PfOperation (pdev : PCIDevice) (manual : Nat → Prop) : List (Event DmaDescriptor) → Prop
  | copy (src dst : Address) (data : List Byte) (read written : MemTxResult)
      (short : data.length ≤ 4096) :
      PfOperation pdev manual ([.dmaRead src data read, .dmaWrite dst data written] ++ pdev.notice 0)
  | raise (vector : Nat) (few : vector < 4) (asked : manual vector) (enabled : pdev.msixEnabled = true) :
      PfOperation pdev manual [.msixNotify vector]
  | assert (disabled : pdev.msixEnabled = false) : PfOperation pdev manual [.intx true]
  | deassert : PfOperation pdev manual [.intx false]
  | peer (address : Address) (word : BitVec 32) (written : MemTxResult) :
      PfOperation pdev manual [.dmaWrite address (littleEndian 4 word) written]
  | translate (address : Address) (read : MemTxResult) : PfOperation pdev manual [.dmaRead address [] read]
  | refused (slot : Address) (data : List Byte) (read : MemTxResult) (whole : data.length = 32) :
      PfOperation pdev manual [.dmaRead slot data read]
  | failed (slot : Address) (desc : DmaDescriptor) (bytes data : List Byte) (written : MemTxResult)
      (whole : bytes.length = 32) (decoded : DmaDescriptor.decode bytes = desc) (valid : desc.Valid)
      (length : data.length = desc.len.toNat) :
      PfOperation pdev manual ([.dmaRead slot bytes .ok, .mark desc, .dmaRead desc.srcAddr data .error,
        .dmaWrite (slot + 0x18) (littleEndian 4 descStatusError) written] ++ desc.asked pdev)
  | moved (slot : Address) (desc : DmaDescriptor) (bytes data : List Byte)
      (landed written : MemTxResult) (whole : bytes.length = 32)
      (decoded : DmaDescriptor.decode bytes = desc) (valid : desc.Valid)
      (length : data.length = desc.len.toNat) :
      PfOperation pdev manual ([.dmaRead slot bytes .ok, .mark desc, .dmaRead desc.srcAddr data .ok,
        .dmaWrite desc.dstAddr data landed,
        .dmaWrite (slot + 0x18) (littleEndian 4 descStatusComplete) written] ++ desc.asked pdev)
  | crypto (src dst : Address) (rk : Aes.RoundKeys) (iv : Aes.AesBlock) (encrypts : Bool)
      (data : List Byte) (read written : MemTxResult) (short : data.length ≤ 4096)
      (blocks : data.length % 16 = 0) :
      PfOperation pdev manual ([.dmaRead src data read,
        .dmaWrite dst (cbc encrypts rk iv data data.length) written] ++ pdev.notice 2)

section Operations

variable (dma : Dma DmaDescriptor) (s : EduPciState) (g : Guest DmaDescriptor)
  (manual : Nat → Prop)

theorem dmaCopy_trace (src dst : Address) (len : BitVec 32) :
    ∃ data read written, data.length = (cappedLen len).toNat ∧
      (dmaCopy dma g src dst len).trace =
        g.trace ++ [.dmaRead src data read, .dmaWrite dst data written] := by
  let read := pciDmaRead dma g src (stackBuffer dma g (cappedLen len).toNat)
  refine ⟨read.2.1, read.1, (pciDmaWrite dma read.2.2 dst read.2.1).1, ?_, ?_⟩
  · rw [pciDmaRead_length, length_stackBuffer]
  · show (pciDmaWrite dma read.2.2 dst read.2.1).2.trace = _
    rw [pciDmaWrite_trace, pciDmaRead_trace, List.append_assoc]
    rfl

theorem notice_trace (vector : Nat) :
    (if s.parentObj.msixEnabled then msixNotify g vector else g).trace =
      g.trace ++ s.parentObj.notice vector := by
  unfold PCIDevice.notice
  split
  · rfl
  · rw [List.append_nil]

theorem turns_eduPciWrite (addr val : BitVec 64) (asks : addr = regIrqRaise → manual val.toNat) :
    g.Turns (PfOperation s.parentObj manual) (eduPciWrite dma s g addr val).2 := by
  by_cases command : addr = regDmaCmd
  · rw [command, eduPciWrite_command]
    dsimp only
    split
    · obtain ⟨data, read, written, length, grown⟩ :=
        dmaCopy_trace dma g s.dmaSrc s.dmaDst s.dmaLen
      have short : data.length ≤ 4096 := by
        rw [length]
        exact cappedLen_le s.dmaLen
      refine .one (.copy s.dmaSrc s.dmaDst data read written short) ?_
      rw [notice_trace, grown, List.append_assoc]
    · exact .none _ rfl
  · unfold eduPciWrite
    split <;> try exact .none _ rfl
    · exact absurd rfl command
    · split
      next asked => exact .one (.raise val.toNat asked.2 (asks rfl) asked.1) rfl
      next =>
        split
        next legacy => exact .one (.assert (Bool.eq_false_of_not_eq_true legacy)) rfl
        next => exact .none _ rfl
    · exact .one .deassert rfl
    · split
      · exact .one (.peer s.p2pAddr s.p2pData _) (pciDmaWrite_trace _ _ _ _)
      · exact .none _ rfl
    · split
      · let read := pciDmaRead dma g s.atsAddr (stackBuffer dma g 0)
        have empty : read.2.1 = [] := by
          apply List.eq_nil_of_length_eq_zero
          rw [pciDmaRead_length, length_stackBuffer]
        refine .one (.translate s.atsAddr read.1) ?_
        rw [← empty]
        exact pciDmaRead_trace dma g s.atsAddr _
      · exact .none _ rfl

variable {s g manual}

theorem turns_eduRingProcessOne (sized : s.ringSize ≠ 0) {next : EduPciState × Guest DmaDescriptor}
    (turned : eduRingProcessOne dma s g = .ok next) :
    g.Turns (PfOperation s.parentObj manual) next.2 := by
  cases found : fetched dma s g with
  | none =>
      obtain ⟨data, result, whole, rejected⟩ := eduRingProcessOne_rejected found
      obtain rfl := Except.ok.inj (rejected.symm.trans turned)
      exact .one (.refused (descAddr s) data result whole) rfl
  | some desc =>
      obtain rfl := Except.ok.inj ((eduRingProcessOne_executed found sized).symm.trans turned)
      obtain ⟨turn, shaped, grown⟩ := descriptorTurn_completed found
      have valid : desc.Valid := (fetched_eq_some_iff.mp found).2.1
      cases shaped with
      | failed bytes data written whole decoded length =>
          exact .one (.failed _ desc bytes data written whole decoded valid length) grown
      | moved bytes data landed written whole decoded length =>
          exact .one (.moved _ desc bytes data landed written whole decoded valid length) grown

theorem turns_ringLoop (remaining : Nat) (sized : s.ringSize ≠ 0)
    {next : EduPciState × Guest DmaDescriptor} (looped : ringLoop dma remaining s g = .ok next) :
    g.Turns (PfOperation s.parentObj manual) next.2 := by
  induction remaining generalizing s g with
  | zero =>
      obtain rfl := Except.ok.inj looped
      exact .none _ rfl
  | succ remaining ih =>
      unfold ringLoop at looped
      split at looped
      · obtain ⟨head, middle, turned⟩ := eduRingProcessOne_device dma s g sized
        rw [turned] at looped
        have rest := @ih (s.withHead head) middle sized looped
        exact (turns_eduRingProcessOne dma sized turned).trans rest
      · obtain rfl := Except.ok.inj looped
        exact .none _ rfl

theorem turns_eduRingProcess {next : EduPciState × Guest DmaDescriptor}
    (processed : eduRingProcess dma s g = .ok next) :
    g.Turns (PfOperation s.parentObj manual) next.2 := by
  unfold eduRingProcess at processed
  split at processed
  · obtain rfl := Except.ok.inj processed
    exact .none _ rfl
  next works => exact turns_ringLoop dma _ (fun unsized => works (.inr unsized)) processed

theorem turns_eduRingWrite (addr val : BitVec 64) {next : EduPciState × Guest DmaDescriptor}
    (taken : eduRingWrite dma s g addr val = .ok next) :
    g.Turns (PfOperation s.parentObj manual) next.2 := by
  by_cases bell : addr = regRingTail
  · by_cases sized : s.ringSize = 0
    · rw [bell, eduRingWrite_unsized dma g val sized] at taken
      exact nomatch taken
    · rw [bell, eduRingWrite_tail val sized] at taken
      dsimp only at taken
      split at taken
      · have turns := @turns_eduRingProcess dma (s.withTail _) g manual next taken
        exact turns
      · obtain rfl := Except.ok.inj taken
        exact .none _ rfl
  by_cases switch : addr = regRingCtrl
  · rw [switch, eduRingWrite_ctrl] at taken
    dsimp only at taken
    split at taken
    · have turns := @turns_eduRingProcess dma
        { s with ringEnabled := (val &&& ringCtrlEnable).setWidth 32 } g manual next taken
      exact turns
    · obtain rfl := Except.ok.inj taken
      exact .none _ rfl
  · unfold eduRingWrite at taken
    split at taken <;> try exact absurd rfl ‹_›
    case h_3 =>
      split at taken
      all_goals
        obtain rfl := Except.ok.inj taken
        exact .none _ rfl
    all_goals
      obtain rfl := Except.ok.inj taken
      exact .none _ rfl

variable (s g manual)

/-- The engine writes what the chaining mode makes of its blocks. -/
theorem eduCryptoStart_trace (val : BitVec 64) (whole : cappedLen s.cryptoLen % 16 = 0) :
    ∃ data read written, data.length = (cappedLen s.cryptoLen).toNat ∧
      (eduCryptoStart dma s g val).2.trace = g.trace ++ ([.dmaRead s.cryptoSrc data read,
        .dmaWrite s.cryptoDst (cbc (decide (val &&& cryptoCmdEncrypt ≠ 0)) s.roundKeys s.cryptoIv
          data data.length) written] ++ s.parentObj.notice 2) := by
  let len := (cappedLen s.cryptoLen).toNat
  let read := pciDmaRead dma g s.cryptoSrc (stackBuffer dma g len)
  let out := cbc (decide (val &&& cryptoCmdEncrypt ≠ 0)) s.roundKeys s.cryptoIv read.2.1 len
  let written := pciDmaWrite dma read.2.2 s.cryptoDst out
  have started : (eduCryptoStart dma s g val).2 =
      if s.parentObj.msixEnabled then msixNotify written.2 2 else written.2 := by
    have mode : out = if val &&& cryptoCmdEncrypt ≠ 0 then
        Aes.aesCbcEncrypt s.roundKeys s.cryptoIv read.2.1 len
      else Aes.aesCbcDecrypt s.roundKeys s.cryptoIv read.2.1 len := by
      simp only [out, cbc, decide_eq_true_eq]
    rw [eduCryptoStart, if_neg (not_not.mpr whole)]
    simp only [written, mode]
    split <;> rfl
  have length : read.2.1.length = len := by
    rw [pciDmaRead_length, length_stackBuffer]
  refine ⟨read.2.1, read.1, written.1, length, ?_⟩
  rw [started, notice_trace, pciDmaWrite_trace, pciDmaRead_trace, length]
  simp only [List.append_assoc]
  rfl

/-- The engine takes whole blocks only. -/
theorem turns_eduCryptoStart (val : BitVec 64) :
    g.Turns (PfOperation s.parentObj manual) (eduCryptoStart dma s g val).2 := by
  by_cases ragged : cappedLen s.cryptoLen % 16 ≠ 0
  · rw [eduCryptoStart, if_pos ragged]
    exact .none _ rfl
  · obtain ⟨data, read, written, length, grown⟩ :=
      eduCryptoStart_trace dma s g val (not_not.mp ragged)
    have short : data.length ≤ 4096 := by
      rw [length]
      exact cappedLen_le s.cryptoLen
    have whole : data.length % 16 = 0 := by
      rw [length]
      exact congrArg BitVec.toNat (not_not.mp ragged)
    exact .one (.crypto _ _ _ _ _ data read written short whole) grown

theorem turns_eduCryptoWrite (addr val : BitVec 64) (size : Nat) :
    g.Turns (PfOperation s.parentObj manual) (eduCryptoWrite dma s g addr val size).2 := by
  unfold eduCryptoWrite
  split <;> try exact .none _ rfl
  · split
    · exact turns_eduCryptoStart dma s g manual val
    · exact .none _ rfl
  · split
    · dsimp only
      split <;> exact .none _ rfl
    · split <;> exact .none _ rfl

/-- The vector that an access asks the function to raise. -/
def PfWrite.Raises (access : PfWrite) (vector : Nat) : Prop :=
  access.bar = .bar0 ∧ access.write.addr = regIrqRaise ∧ access.write.val.toNat = vector

/-- Every access is some operations in a row, and leaves the message interrupts on or off. -/
theorem turns_pfAccess {access : PfWrite} {next : EduPciState × Guest DmaDescriptor}
    (taken : pfAccess dma (s, g) access = .ok next) :
    g.Turns (PfOperation s.parentObj access.Raises) next.2 ∧ next.1.parentObj = s.parentObj := by
  refine ⟨?_, ?_⟩
  · obtain ⟨bar, host, addr, val⟩ := access
    cases bar with
    | bar0 =>
        obtain rfl := Except.ok.inj taken
        have asks : addr = regIrqRaise →
            (PfWrite.mk .bar0 ⟨host, addr, val⟩).Raises (val.setWidth 64).toNat := by
          intro raises
          refine ⟨rfl, raises, ?_⟩
          rw [BitVec.toNat_setWidth, Nat.mod_eq_of_lt]
          exact Nat.lt_trans val.isLt (by decide)
        have turns := turns_eduPciWrite dma s (g.rewrite host) _ addr (val.setWidth 64) asks
        exact turns
    | bar4 =>
        have turns := @turns_eduRingWrite dma s (g.rewrite host)
          (PfWrite.mk .bar4 ⟨host, addr, val⟩).Raises addr (val.setWidth 64) next taken
        exact turns
    | bar5 =>
        obtain rfl := Except.ok.inj taken
        have turns := turns_eduCryptoWrite dma s (g.rewrite host)
          (PfWrite.mk .bar5 ⟨host, addr, val⟩).Raises addr (val.setWidth 64) 4
        exact turns
  · have others := pfAccess_others taken
    rw [others]
    cases access.bar <;> rfl

end Operations

/-- Whatever the host writes to its registers, in any state, what the function does to the guest
splits into the accesses and each of these into operations. -/
theorem pfRun_operations (dma : Dma DmaDescriptor) (s : EduPciState) (g : Guest DmaDescriptor)
    (accesses : List PfWrite) (final : EduPciState × Guest DmaDescriptor)
    (finished : run (pfAccess dma) (s, g) accesses = .ok final) :
    ∃ groups : List (List (List (Event DmaDescriptor))),
      List.Forall₂ (fun access words => ∀ word ∈ words, PfOperation s.parentObj access.Raises word)
        accesses groups ∧
      final.2.trace = g.trace ++ groups.flatten.flatten ∧ final.1.parentObj = s.parentObj := by
  induction accesses generalizing s g with
  | nil =>
      obtain rfl := Except.ok.inj finished
      exact ⟨[], .nil, (List.append_nil _).symm, rfl⟩
  | cons access rest ih =>
      obtain ⟨⟨next, guest⟩, taken, ran⟩ := (run_cons_ok_iff _ _ _ _ _).mp finished
      obtain ⟨⟨words, shaped, grown⟩, same⟩ := turns_pfAccess dma s g taken
      obtain ⟨groups, matched, longer, still⟩ := ih next guest ran
      dsimp only at grown same
      rw [same] at matched still
      refine ⟨words :: groups, .cons shaped matched, ?_, still⟩
      rw [longer, grown, List.flatten_cons, List.flatten_append, List.append_assoc]

/-- The host copies a byte, raises a vector by hand, rings for one descriptor that asks for an
interrupt, and encrypts a block. -/
def mixedAccesses : List PfWrite :=
  [⟨.bar0, ⟨id, regDmaSrc, 0x1000⟩⟩, ⟨.bar0, ⟨id, regDmaDst, 0x3000⟩⟩, ⟨.bar0, ⟨id, regDmaLen, 1⟩⟩,
    ⟨.bar0, ⟨id, regDmaCmd, 1⟩⟩, ⟨.bar0, ⟨id, regIrqRaise, 3⟩⟩, ⟨.bar4, ⟨id, regRingSize, 2⟩⟩,
    ⟨.bar4, ⟨id, regRingCtrl, 1⟩⟩, ⟨.bar4, ⟨id, regRingTail, 1⟩⟩,
    ⟨.bar5, ⟨id, regCryptoLen, 16⟩⟩, ⟨.bar5, ⟨id, regCryptoCmd, 3⟩⟩]

def mixedDesc : DmaDescriptor := ⟨0x1000, 0, 0x2000, 0, 4, 3, 0, 0⟩

def mixedGuest : Guest DmaDescriptor := ⟨fun address => mixedDesc.encode.getD address.toNat 0, []⟩

def reliableDma : Dma DmaDescriptor := DmaPattern.reliable.dma fun _ _ => 0

theorem mixedAccesses_returns : ∃ final,
    run (pfAccess reliableDma) (EduPciState.zeroed ⟨true⟩, mixedGuest) mixedAccesses = .ok final := by
  have returns : (run (pfAccess reliableDma) (EduPciState.zeroed ⟨true⟩, mixedGuest)
      mixedAccesses).toOption.isSome = true := by
    decide +kernel
  cases ran : run (pfAccess reliableDma) (EduPciState.zeroed ⟨true⟩, mixedGuest) mixedAccesses with
  | ok final => exact ⟨final, rfl⟩
  | error stopped =>
      rw [ran] at returns
      exact nomatch returns

theorem pfRun_operations_mixed : ∃ final,
    run (pfAccess reliableDma) (EduPciState.zeroed ⟨true⟩, mixedGuest) mixedAccesses = .ok final ∧
    ∃ groups : List (List (List (Event DmaDescriptor))),
      List.Forall₂ (fun access words => ∀ word ∈ words, PfOperation ⟨true⟩ access.Raises word)
        mixedAccesses groups ∧
      final.2.trace = [] ++ groups.flatten.flatten ∧ final.1.parentObj = ⟨true⟩ := by
  obtain ⟨final, finished⟩ := mixedAccesses_returns
  exact ⟨final, finished, pfRun_operations reliableDma (EduPciState.zeroed ⟨true⟩) mixedGuest
    mixedAccesses final finished⟩

end EduDevices
