import Mathlib.Data.Multiset.Bind
import EduDevices.Construction.LinuxDriver
import EduDevices.Library.Refinement

namespace EduDevices

open Refinement

variable {Dev : Type} [DecidableEq Dev]

/-- A bound device with the memory and the window that its driver has for it. -/
structure Bond (Dev : Type) where
  pdev : Dev
  edu : Nat
  bar0 : Iomem Dev

/-- What the driver holds for a bound device, the last that it took first. -/
def Bond.pieces (bond : Bond Dev) : Multiset (KernelResource Dev) :=
  .mapping bond.bar0 ::ₘ .region bond.pdev ::ₘ .enabled bond.pdev ::ₘ {.block bond.edu}

omit [DecidableEq Dev] in
theorem Bond.pieces_add (bond : Bond Dev) (rest : Multiset (KernelResource Dev)) :
    bond.pieces + rest =
      .mapping bond.bar0 ::ₘ .region bond.pdev ::ₘ .enabled bond.pdev ::ₘ .block bond.edu ::ₘ rest := by
  simp [pieces]

/-- The driver finds what it has for the device. -/
structure Bond.Stands (bond : Bond Dev) (m : KernelMachine Dev) : Prop where
  drvdata : m.drvdata bond.pdev = some bond.edu
  bar0 : (m.heap bond.edu).bar0 = some bond.bar0
  old : bond.edu < m.fresh

/-- The registers read as the device has them. -/
def KernelMessage.Right : KernelMessage Dev → Prop
  | .deviceId val => val = 0x0ED00001
  | .scratch val => val = 0xDEADBEEF
  | _ => True

section Calls

variable {Result Other : Type} (m : KernelMachine Dev)

omit [DecidableEq Dev] in
@[simp] theorem kernelM_bind (call : KernelM Dev Result) (onward : Result → KernelM Dev Other) :
    (call >>= onward) m = (call m).bind fun out => onward out.1 out.2 := rfl

omit [DecidableEq Dev] in
@[simp] theorem kernelM_pure (result : Result) :
    (pure result : KernelM Dev Result) m = .ok (result, m) := rfl

variable {m} {resource : KernelResource Dev} {rest : Multiset (KernelResource Dev)}

/-- What was taken last is given back. -/
theorem giveBack_of_held (held : m.held = resource ::ₘ rest) :
    giveBack resource m = .ok ((), { m with held := rest }) := by
  have member : resource ∈ m.held := by
    rw [held]
    exact Multiset.mem_cons_self resource rest
  rw [giveBack, if_pos member, held, Multiset.erase_cons_head]

end Calls

section Errors

variable {pdev : Dev} {m : KernelMachine Dev} {edu : Nat} (ret : Int)
  {rest : Multiset (KernelResource Dev)}

theorem errFree_eq (held : m.held = .block edu ::ₘ rest) :
    errFree edu ret m = .ok (ret, { m with held := rest }) := by
  rw [errFree, kernelM_bind, kfree, giveBack_of_held held]
  rfl

theorem errDisable_eq (held : m.held = .enabled pdev ::ₘ .block edu ::ₘ rest) :
    errDisable pdev edu ret m = .ok (ret, { m with held := rest }) := by
  rw [errDisable, kernelM_bind, pciDisableDevice, giveBack_of_held held]
  exact errFree_eq ret rfl

theorem errRelease_eq (held : m.held = .region pdev ::ₘ .enabled pdev ::ₘ .block edu ::ₘ rest) :
    errRelease pdev edu ret m = .ok (ret, { m with held := rest }) := by
  rw [errRelease, kernelM_bind, pciReleaseRegion, giveBack_of_held held]
  exact errDisable_eq ret rfl

end Errors

theorem loadBar0_eq {m : KernelMachine Dev} {edu : Nat} (member : .block edu ∈ m.held) :
    loadBar0 (some edu) m = .ok ((m.heap edu).bar0, m) :=
  if_pos member

theorem ioread32_eq {m : KernelMachine Dev} {bar : Iomem Dev} (member : .mapping bar ∈ m.held)
    (off : BitVec 64) :
    ioread32 (some bar) off m = .ok ((eduPciRead (m.device bar.dev) off).setWidth 32, m) :=
  if_pos member

theorem iowrite32_scratch (kernel : Kernel) {m : KernelMachine Dev} {bar : Iomem Dev}
    (member : .mapping bar ∈ m.held) (val : BitVec 32) :
    iowrite32 kernel val (some bar) regScratch m = .ok ((), { m with
      device := Function.update m.device bar.dev { m.device bar.dev with
        scratch := (val.setWidth 64).setWidth 32 } }) :=
  if_pos member

/-- The steps of a probe touch what belongs to its device only. -/
structure Steps (pdev : Dev) (edu : Nat) (m next : KernelMachine Dev) : Prop where
  bound : next.bound = m.bound
  fresh : m.fresh ≤ next.fresh
  heap : ∀ other ≠ edu, next.heap other = m.heap other
  drvdata : ∀ other ≠ pdev, next.drvdata other = m.drvdata other
  right : ∀ message ∈ next.log, message ∈ m.log ∨ message.Right

omit [DecidableEq Dev] in
theorem Steps.trans {pdev : Dev} {edu : Nat} {m middle next : KernelMachine Dev}
    (first : Steps pdev edu m middle) (second : Steps pdev edu middle next) :
    Steps pdev edu m next where
  bound := second.bound.trans first.bound
  fresh := first.fresh.trans second.fresh
  heap other different := (second.heap other different).trans (first.heap other different)
  drvdata other different := (second.drvdata other different).trans (first.drvdata other different)
  right message member := (second.right message member).elim (first.right message) .inr

/-- At its end the driver either has all the pieces, or none of them and a code that is not zero. -/
structure Probed (pdev : Dev) (edu : Nat) (rest : Multiset (KernelResource Dev))
    (m : KernelMachine Dev) (ret : Int) (next : KernelMachine Dev) : Prop where
  steps : Steps pdev edu m next
  done : ret = 0 → ∃ bond : Bond Dev, bond.pdev = pdev ∧ next.held = bond.pieces + rest ∧
    bond.Stands next
  undone : ret ≠ 0 → next.held = rest

/-- A part of the probe that starts from a machine ends as a probe does. -/
def Ends (pdev : Dev) (edu : Nat) (rest : Multiset (KernelResource Dev)) (m : KernelMachine Dev)
    (stage : KernelM Dev Int) : Prop :=
  ∃ ret next, stage m = .ok (ret, next) ∧ Probed pdev edu rest m ret next

omit [DecidableEq Dev] in
theorem Probed.after {pdev : Dev} {edu : Nat} {rest : Multiset (KernelResource Dev)}
    {m middle next : KernelMachine Dev} {ret : Int} (probed : Probed pdev edu rest middle ret next)
    (steps : Steps pdev edu m middle) : Probed pdev edu rest m ret next :=
  ⟨steps.trans probed.steps, probed.done, probed.undone⟩

section Stages

variable (kernel : Kernel) {pdev : Dev} {m : KernelMachine Dev} {edu : Nat}
  {rest : Multiset (KernelResource Dev)}

/-- With everything in place the driver finds the registers right. -/
theorem ends_probeRegisters {bond : Bond Dev} (held : m.held = bond.pieces + rest)
    (stored : (m.heap bond.edu).bar0 = some bond.bar0) (old : bond.edu < m.fresh) :
    Ends bond.pdev bond.edu rest m (probeRegisters kernel bond.pdev bond.edu) := by
  have block : .block bond.edu ∈ m.held := by
    rw [held]
    simp [Bond.pieces]
  have mapping : .mapping bond.bar0 ∈ m.held := by
    rw [held]
    simp [Bond.pieces]
  let ready : KernelMachine Dev := { m with
    drvdata := Function.update m.drvdata bond.pdev (some bond.edu)
    device := Function.update m.device bond.bar0.dev
      { m.device bond.bar0.dev with scratch := 0xDEADBEEF }
    log := m.log ++ [.deviceId 0x0ED00001] ++ [.scratch 0xDEADBEEF] ++ [.ready] }
  have ran : probeRegisters kernel bond.pdev bond.edu m = .ok (0, ready) := by
    simp only [probeRegisters, pciSetDrvdata, kernelM_bind, kernelM_pure, Except.bind]
    rw [loadBar0_eq (by exact block)]
    simp only [stored]
    rw [ioread32_eq (by exact mapping)]
    simp only [prInfo]
    rw [loadBar0_eq (by exact block)]
    simp only [stored]
    rw [iowrite32_scratch kernel (by exact mapping)]
    dsimp only
    rw [loadBar0_eq (by exact block)]
    simp only [stored]
    rw [ioread32_eq (by exact mapping)]
    simp only [Function.update_self]
    rfl
  refine ⟨0, ready, ran, ⟨rfl, le_refl _, fun _ _ => rfl,
    fun other different => Function.update_of_ne different _ _, ?_⟩,
    fun _ => ⟨bond, rfl, held, Function.update_self bond.pdev _ m.drvdata, stored, old⟩,
    fun failed => absurd rfl failed⟩
  intro message member
  simp only [ready, List.mem_append, List.mem_singleton] at member
  rcases member with ((before | rfl) | rfl) | rfl
  · exact .inl before
  · exact .inr rfl
  · exact .inr rfl
  · exact .inr trivial

/-- The probe from the mapping of the window on. -/
def windowStage (pdev : Dev) (edu : Nat) : KernelM Dev Int := do
  let bar0 ← pciIomap kernel pdev
  storeBar0 edu bar0
  match bar0 with
  | none => errRelease pdev edu (-enomem)
  | some _ => probeRegisters kernel pdev edu

def regionStage (pdev : Dev) (edu : Nat) : KernelM Dev Int := do
  let ret ← pciRequestRegion kernel pdev
  if ret ≠ 0 then errDisable pdev edu ret else windowStage kernel pdev edu

def enableStage (pdev : Dev) (edu : Nat) : KernelM Dev Int := do
  let ret ← pciEnableDevice kernel pdev
  if ret ≠ 0 then errFree edu ret else regionStage kernel pdev edu

theorem ends_windowStage (old : edu < m.fresh)
    (held : m.held = .region pdev ::ₘ .enabled pdev ::ₘ .block edu ::ₘ rest) :
    Ends pdev edu rest m (windowStage kernel pdev edu) := by
  have block : .block edu ∈ m.held := by
    rw [held]
    simp
  by_cases full : kernel.verdict m.calls ≠ 0
  · let unmapped : KernelMachine Dev := { m with
      calls := m.calls + 1
      heap := Function.update m.heap edu ⟨none⟩ }
    have released : errRelease pdev edu (-enomem) unmapped =
        .ok (-enomem, { unmapped with held := rest }) := errRelease_eq _ held
    refine ⟨-enomem, { unmapped with held := rest }, ?_, ?_, (fun done => nomatch done), fun _ => rfl⟩
    · simp only [windowStage, pciIomap, if_pos full, kernelM_bind, Except.bind, storeBar0]
      rw [if_pos block]
      exact released
    · exact ⟨rfl, le_refl _, fun other different => Function.update_of_ne different _ _,
        fun _ _ => rfl, fun _ member => .inl member⟩
  · let bar0 : Iomem Dev := ⟨pdev, m.fresh⟩
    let bond : Bond Dev := ⟨pdev, edu, bar0⟩
    let mapped : KernelMachine Dev := { m with
      calls := m.calls + 1
      fresh := m.fresh + 1
      held := .mapping bar0 ::ₘ m.held
      heap := Function.update m.heap edu ⟨some bar0⟩ }
    have pieces : mapped.held = bond.pieces + rest := by
      show .mapping bar0 ::ₘ m.held = _
      rw [held, bond.pieces_add]
    have stored : (mapped.heap bond.edu).bar0 = some bond.bar0 :=
      congrArg EduDevice.bar0 (Function.update_self edu _ m.heap)
    have ends : Ends pdev edu rest mapped (probeRegisters kernel pdev edu) :=
      ends_probeRegisters kernel pieces stored (Nat.lt_succ_of_lt old)
    obtain ⟨ret, next, ran, probed⟩ := ends
    refine ⟨ret, next, ?_, probed.after ⟨rfl, Nat.le_succ _,
      fun other different => Function.update_of_ne different _ _, fun _ _ => rfl, fun _ => .inl⟩⟩
    simp only [windowStage, pciIomap, if_neg full, kernelM_bind, Except.bind, storeBar0]
    rw [if_pos (Multiset.mem_cons_of_mem block)]
    exact ran

theorem ends_regionStage (old : edu < m.fresh)
    (held : m.held = .enabled pdev ::ₘ .block edu ::ₘ rest) :
    Ends pdev edu rest m (regionStage kernel pdev edu) := by
  let taken : KernelMachine Dev := { m with calls := m.calls + 1 }
  have moved : Steps pdev edu m taken :=
    ⟨rfl, le_refl _, fun _ _ => rfl, fun _ _ => rfl, fun _ => .inl⟩
  let ret := if .region pdev ∈ m.held then -ebusy else kernel.verdict m.calls
  by_cases busy : ret ≠ 0
  · have disabled : errDisable pdev edu ret taken = .ok (ret, { taken with held := rest }) :=
      errDisable_eq _ held
    refine ⟨ret, { taken with held := rest }, ?_, ⟨moved.bound, moved.fresh, moved.heap,
      moved.drvdata, moved.right⟩, fun done => absurd done busy, fun _ => rfl⟩
    simp only [regionStage, pciRequestRegion, kernelM_bind]
    rw [if_pos busy]
    simp only [Except.bind]
    rw [if_pos busy]
    exact disabled
  · let claimed : KernelMachine Dev := { taken with held := .region pdev ::ₘ m.held }
    have pieces : claimed.held = .region pdev ::ₘ .enabled pdev ::ₘ .block edu ::ₘ rest := by
      show .region pdev ::ₘ m.held = _
      rw [held]
    have older : edu < claimed.fresh := old
    obtain ⟨final, next, ran, probed⟩ := ends_windowStage kernel older pieces
    refine ⟨final, next, ?_, probed.after ⟨rfl, le_refl _, fun _ _ => rfl, fun _ _ => rfl, fun _ => .inl⟩⟩
    simp only [regionStage, pciRequestRegion, kernelM_bind]
    rw [if_neg busy]
    exact ran

theorem ends_enableStage (old : edu < m.fresh) (held : m.held = .block edu ::ₘ rest) :
    Ends pdev edu rest m (enableStage kernel pdev edu) := by
  let taken : KernelMachine Dev := { m with calls := m.calls + 1 }
  by_cases off : kernel.verdict m.calls ≠ 0
  · have freed : errFree edu (kernel.verdict m.calls) taken =
        .ok (kernel.verdict m.calls, { taken with held := rest }) := errFree_eq _ held
    refine ⟨kernel.verdict m.calls, { taken with held := rest }, ?_, ⟨rfl, le_refl _, fun _ _ => rfl,
      fun _ _ => rfl, fun _ => .inl⟩, fun done => absurd done off, fun _ => rfl⟩
    simp only [enableStage, pciEnableDevice, kernelM_bind, if_pos off, Except.bind]
    exact freed
  · let enabled : KernelMachine Dev := { taken with held := .enabled pdev ::ₘ m.held }
    have pieces : enabled.held = .enabled pdev ::ₘ .block edu ::ₘ rest := by
      show .enabled pdev ::ₘ m.held = _
      rw [held]
    have older : edu < enabled.fresh := old
    obtain ⟨final, next, ran, probed⟩ := ends_regionStage kernel older pieces
    refine ⟨final, next, ?_, probed.after ⟨rfl, le_refl _, fun _ _ => rfl, fun _ _ => rfl, fun _ => .inl⟩⟩
    simp only [enableStage, pciEnableDevice, kernelM_bind, if_neg off, Except.bind]
    exact ran

/-- Wherever a probe fails, it gives everything back. -/
theorem probed_eduProbe (pdev : Dev) (m : KernelMachine Dev) :
    Ends pdev m.fresh m.held m (eduProbe kernel pdev) := by
  let told : KernelMachine Dev := { m with log := m.log ++ [.probe pdev], calls := m.calls + 1 }
  have right : ∀ message ∈ told.log, message ∈ m.log ∨ message.Right := by
    intro message member
    rcases List.mem_append.mp member with old | new
    · exact .inl old
    · rw [List.mem_singleton.mp new]
      exact .inr trivial
  by_cases full : kernel.verdict m.calls ≠ 0
  · refine ⟨-enomem, told, ?_, ⟨rfl, le_refl _, fun _ _ => rfl, fun _ _ => rfl, right⟩,
      (fun done => nomatch done), fun _ => rfl⟩
    simp only [eduProbe, prInfo, kzalloc, kernelM_bind, Except.bind, if_pos full]
    rfl
  · let allocated : KernelMachine Dev := { told with
      fresh := m.fresh + 1
      held := .block m.fresh ::ₘ m.held
      heap := Function.update m.heap m.fresh ⟨none⟩ }
    have steps : Steps pdev m.fresh m allocated :=
      ⟨rfl, Nat.le_succ _, fun other different => Function.update_of_ne different _ _,
        fun _ _ => rfl, right⟩
    have old : m.fresh < allocated.fresh := Nat.lt_succ_self _
    have ends : Ends pdev m.fresh m.held allocated (enableStage kernel pdev m.fresh) :=
      ends_enableStage kernel old rfl
    obtain ⟨final, next, ran, probed⟩ := ends
    refine ⟨final, next, ?_, probed.after steps⟩
    simp only [eduProbe, prInfo, kzalloc, kernelM_bind, Except.bind, if_neg full]
    exact ran

end Stages

/-- The driver gives back everything that it has for a device. -/
theorem eduRemove_eq {m : KernelMachine Dev} {bond : Bond Dev}
    {rest : Multiset (KernelResource Dev)} (stands : bond.Stands m)
    (held : m.held = bond.pieces + rest) : eduRemove bond.pdev m = .ok ((), { m with
      held := rest
      log := m.log ++ [.remove bond.pdev] }) := by
  have block : .block bond.edu ∈ m.held := by
    rw [held]
    simp [Bond.pieces]
  rw [bond.pieces_add] at held
  simp only [eduRemove, pciGetDrvdata, prInfo, kernelM_bind, Except.bind, stands.drvdata]
  rw [loadBar0_eq (by exact block)]
  simp only [stands.bar0, pciIounmap]
  rw [giveBack_of_held (by exact held)]
  simp only [pciReleaseRegion]
  rw [giveBack_of_held rfl]
  simp only [pciDisableDevice]
  rw [giveBack_of_held rfl]
  exact giveBack_of_held rfl

/-- Beside what was held at the start, the driver holds the pieces of the bound devices. -/
structure Accounted (start m : KernelMachine Dev) (bonds : Multiset (Bond Dev)) : Prop where
  bound : bonds.map Bond.pdev = m.bound.val
  held : m.held = bonds.bind Bond.pieces + start.held
  stands : ∀ bond ∈ bonds, bond.Stands m
  right : ∀ message ∈ m.log, message ∈ start.log ∨ message.Right

section Bus

variable (kernel : Kernel) {start m : KernelMachine Dev} {bonds : Multiset (Bond Dev)}

/-- A probe of a device that is free leaves the other devices their pieces. -/
theorem Accounted.bind (accounted : Accounted start m bonds) {pdev : Dev} (free : pdev ∉ m.bound) :
    ∃ ret next, eduProbe kernel pdev m = .ok (ret, next) ∧ ∃ bonds,
      Accounted start (if ret = 0 then { next with bound := insert pdev next.bound } else next)
        bonds := by
  obtain ⟨ret, next, ran, probed⟩ := probed_eduProbe kernel pdev m
  have stands : ∀ bond ∈ bonds, bond.Stands next := by
    intro bond member
    obtain ⟨drvdata, bar0, old⟩ := accounted.stands bond member
    have other : bond.pdev ≠ pdev := by
      rintro rfl
      exact free (by rw [← Finset.mem_val, ← accounted.bound]; exact Multiset.mem_map_of_mem _ member)
    refine ⟨?_, ?_, old.trans_le probed.steps.fresh⟩
    · rw [probed.steps.drvdata _ other, drvdata]
    · rw [probed.steps.heap _ old.ne, bar0]
  have right : ∀ message ∈ next.log, message ∈ start.log ∨ message.Right :=
    fun message member => (probed.steps.right message member).elim (accounted.right message) .inr
  refine ⟨ret, next, ran, ?_⟩
  split
  next done =>
    obtain ⟨bond, rfl, held, own⟩ := probed.done done
    refine ⟨bond ::ₘ bonds, ?_, ?_, ?_, right⟩
    · rw [Multiset.map_cons, accounted.bound, ← probed.steps.bound]
      rw [← probed.steps.bound] at free
      exact (Finset.insert_val_of_notMem free).symm
    · rw [Multiset.cons_bind, add_assoc, ← accounted.held]
      exact held
    · intro other member
      rcases Multiset.mem_cons.mp member with rfl | old
      · exact ⟨own.drvdata, own.bar0, own.old⟩
      · exact ⟨(stands other old).drvdata, (stands other old).bar0, (stands other old).old⟩
  next failed =>
    exact ⟨bonds, accounted.bound.trans (congrArg Finset.val probed.steps.bound).symm,
      (probed.undone failed).trans accounted.held, stands, right⟩

theorem Accounted.unbind (accounted : Accounted start m bonds) {pdev : Dev} (busy : pdev ∈ m.bound) :
    ∃ next, eduRemove pdev m = .ok ((), next) ∧ ∃ bonds,
      Accounted start { next with bound := next.bound.erase pdev } bonds := by
  rw [← Finset.mem_val, ← accounted.bound] at busy
  obtain ⟨bond, member, rfl⟩ := Multiset.mem_map.mp busy
  obtain ⟨rest, rfl⟩ := Multiset.exists_cons_of_mem member
  have held : m.held = bond.pieces + (rest.bind Bond.pieces + start.held) := by
    rw [accounted.held, Multiset.cons_bind, add_assoc]
  refine ⟨_, eduRemove_eq (accounted.stands bond member) held, rest, ?_, rfl, ?_, ?_⟩
  · have bound := accounted.bound
    rw [Multiset.map_cons] at bound
    show _ = (m.bound.erase bond.pdev).val
    rw [Finset.erase_val, ← bound, Multiset.erase_cons_head]
  · intro other old
    obtain ⟨drvdata, bar0, allocated⟩ := accounted.stands other (Multiset.mem_cons_of_mem old)
    exact ⟨drvdata, bar0, allocated⟩
  · intro message new
    rcases List.mem_append.mp new with old | last
    · exact accounted.right message old
    · rw [List.mem_singleton.mp last]
      exact .inr trivial

theorem Accounted.step (accounted : Accounted start m bonds) (event : BusEvent Dev) :
    ∃ answer next, busStep kernel m event = .ok (answer, next) ∧ ∃ bonds,
      Accounted start next bonds := by
  cases event with
  | bind pdev =>
      by_cases busy : pdev ∈ m.bound
      · exact ⟨none, m, if_pos busy, bonds, accounted⟩
      · obtain ⟨ret, next, ran, kept⟩ := accounted.bind kernel busy
        refine ⟨some ret, _, ?_, kept⟩
        rw [busStep, if_neg busy, ran]
        rfl
  | unbind pdev =>
      by_cases busy : pdev ∈ m.bound
      · obtain ⟨next, ran, kept⟩ := accounted.unbind busy
        refine ⟨some 0, _, ?_, kept⟩
        rw [busStep, if_pos busy, ran]
        rfl
      · exact ⟨none, m, if_neg busy, bonds, accounted⟩

end Bus

/-- However the devices are bound and freed, and whichever calls of the kernel fail, the driver
never gives back or uses what it does not hold, and holds what the bound devices need, no more. -/
theorem eduDriver_accounts (kernel : Kernel) (start : KernelMachine Dev) (unbound : start.bound = ∅)
    (events : List (BusEvent Dev)) :
    ∃ answers final bonds, serve (busStep kernel) start events = .ok (answers, final) ∧
      Accounted start final bonds := by
  have opening : Accounted start start 0 :=
    ⟨by rw [unbound]; rfl, (zero_add _).symm, fun _ none => absurd none (Multiset.notMem_zero _),
      fun _ => .inl⟩
  have keeps : ∀ (m : KernelMachine Dev) (event : BusEvent Dev),
      (∃ bonds, Accounted start m bonds) → ∃ answer next, busStep kernel m event = .ok (answer, next) ∧
        ∃ bonds, Accounted start next bonds :=
    fun m event kept => kept.elim fun _ accounted => accounted.step kernel event
  obtain ⟨answers, final, served, bonds, last⟩ := serve_invariant keeps events ⟨0, opening⟩
  exact ⟨answers, final, bonds, served, last⟩

/-- The window of the second device cannot be mapped, and the first one is freed and bound again. -/
theorem eduDriver_accounts_unmapped :
    let kernel : Kernel := ⟨DmaPattern.reliable.dma fun _ _ => 0, fun call => if call = 7 then -12 else 0⟩
    let start : KernelMachine Bool := ⟨0, 0, 0, fun _ => ⟨none⟩, fun _ => none,
      fun _ => .zeroed ⟨true⟩, ⟨fun _ => 0, []⟩, [], ∅⟩
    ∃ answers final bonds, serve (busStep kernel) start
        [.bind true, .bind false, .unbind true, .unbind false, .bind true] = .ok (answers, final) ∧
      Accounted start final bonds := by
  intro kernel start
  exact eduDriver_accounts kernel start rfl _

end EduDevices
