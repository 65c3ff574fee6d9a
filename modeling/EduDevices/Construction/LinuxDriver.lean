import Mathlib.Data.Multiset.AddSub
import EduDevices.Construction.Registers

namespace EduDevices

variable {Dev : Type} [DecidableEq Dev]

/-- A mapping of the first window of a device; the kernel never uses a cookie twice. -/
structure Iomem (Dev : Type) where
  dev : Dev
  cookie : Nat
  deriving DecidableEq

/-- What a driver takes from the kernel and has to give back. -/
inductive KernelResource (Dev : Type) where
  | block (pointer : Nat)
  | enabled (pdev : Dev)
  | region (pdev : Dev)
  | mapping (bar : Iomem Dev)
  deriving DecidableEq

/-- A driver must not give back what nobody holds, nor use memory or a window after that. -/
inductive KernelBug where
  | notHeld
  | badAccess
  deriving DecidableEq

inductive KernelMessage (Dev : Type) where
  | probe (pdev : Dev)
  | deviceId (val : BitVec 32)
  | scratch (val : BitVec 32)
  | ready
  | remove (pdev : Dev)

/-- The per-device data of the driver, as it is allocated, has no window. -/
structure EduDevice (Dev : Type) where
  bar0 : Option (Iomem Dev)

structure KernelMachine (Dev : Type) where
  calls : Nat
  fresh : Nat
  held : Multiset (KernelResource Dev)
  heap : Nat → EduDevice Dev
  drvdata : Dev → Option Nat
  device : Dev → EduPciState
  guest : Guest DmaDescriptor
  log : List (KernelMessage Dev)
  bound : Finset Dev

/-- The verdicts give the results of the calls that may fail, in their order; zero is success. -/
structure Kernel where
  dma : Dma DmaDescriptor
  verdict : Nat → Int

abbrev KernelM (Dev : Type) := StateT (KernelMachine Dev) (Except KernelBug)

abbrev enomem : Int := 12
abbrev ebusy : Int := 16

def prInfo (message : KernelMessage Dev) : KernelM Dev Unit :=
  fun m => .ok ((), { m with log := m.log ++ [message] })

/-- A null pointer is what an allocation returns that fails. -/
def kzalloc (kernel : Kernel) : KernelM Dev (Option Nat) := fun m =>
  if kernel.verdict m.calls ≠ 0 then .ok (none, { m with calls := m.calls + 1 })
  else .ok (some m.fresh, { m with
    calls := m.calls + 1
    fresh := m.fresh + 1
    held := .block m.fresh ::ₘ m.held
    heap := Function.update m.heap m.fresh ⟨none⟩ })

def giveBack (resource : KernelResource Dev) : KernelM Dev Unit := fun m =>
  if resource ∈ m.held then .ok ((), { m with held := m.held.erase resource }) else .error .notHeld

/-- Nothing is freed at a null pointer. -/
def kfree (pointer : Option Nat) : KernelM Dev Unit :=
  match pointer with
  | none => return ()
  | some pointer => giveBack (.block pointer)

def pciEnableDevice (kernel : Kernel) (pdev : Dev) : KernelM Dev Int := fun m =>
  let ret := kernel.verdict m.calls
  let m := { m with calls := m.calls + 1 }
  if ret ≠ 0 then .ok (ret, m) else .ok (0, { m with held := .enabled pdev ::ₘ m.held })

def pciDisableDevice (pdev : Dev) : KernelM Dev Unit := giveBack (.enabled pdev)

/-- A region that somebody holds cannot be had a second time. -/
def pciRequestRegion (kernel : Kernel) (pdev : Dev) : KernelM Dev Int := fun m =>
  let ret := if .region pdev ∈ m.held then -ebusy else kernel.verdict m.calls
  let m := { m with calls := m.calls + 1 }
  if ret ≠ 0 then .ok (ret, m) else .ok (0, { m with held := .region pdev ::ₘ m.held })

def pciReleaseRegion (pdev : Dev) : KernelM Dev Unit := giveBack (.region pdev)

def pciIomap (kernel : Kernel) (pdev : Dev) : KernelM Dev (Option (Iomem Dev)) := fun m =>
  if kernel.verdict m.calls ≠ 0 then .ok (none, { m with calls := m.calls + 1 })
  else
    let bar : Iomem Dev := ⟨pdev, m.fresh⟩
    .ok (some bar, { m with
      calls := m.calls + 1
      fresh := m.fresh + 1
      held := .mapping bar ::ₘ m.held })

/-- Nothing was mapped at a null pointer. -/
def pciIounmap (bar : Option (Iomem Dev)) : KernelM Dev Unit :=
  match bar with
  | none => throw .notHeld
  | some bar => giveBack (.mapping bar)

def loadBar0 (edu : Option Nat) : KernelM Dev (Option (Iomem Dev)) := fun m =>
  match edu with
  | none => .error .badAccess
  | some edu =>
      if .block edu ∈ m.held then .ok ((m.heap edu).bar0, m) else .error .badAccess

def storeBar0 (edu : Nat) (bar0 : Option (Iomem Dev)) : KernelM Dev Unit := fun m =>
  if .block edu ∈ m.held then .ok ((), { m with heap := Function.update m.heap edu ⟨bar0⟩ })
  else .error .badAccess

def pciSetDrvdata (pdev : Dev) (edu : Nat) : KernelM Dev Unit :=
  fun m => .ok ((), { m with drvdata := Function.update m.drvdata pdev (some edu) })

def pciGetDrvdata (pdev : Dev) : KernelM Dev (Option Nat) := fun m => .ok (m.drvdata pdev, m)

def ioread32 (bar : Option (Iomem Dev)) (off : BitVec 64) : KernelM Dev (BitVec 32) := fun m =>
  match bar with
  | none => .error .badAccess
  | some bar =>
      if .mapping bar ∈ m.held then .ok ((eduPciRead (m.device bar.dev) off).setWidth 32, m)
      else .error .badAccess

def iowrite32 (kernel : Kernel) (val : BitVec 32) (bar : Option (Iomem Dev)) (off : BitVec 64) :
    KernelM Dev Unit := fun m =>
  match bar with
  | none => .error .badAccess
  | some bar =>
      if .mapping bar ∈ m.held then
        let (device, guest) := eduPciWrite kernel.dma (m.device bar.dev) m.guest off (val.setWidth 64)
        .ok ((), { m with device := Function.update m.device bar.dev device, guest })
      else .error .badAccess

section Driver

variable (kernel : Kernel) (pdev : Dev)

/-- The labels of the error path fall through from one to the next. -/
def errFree (edu : Nat) (ret : Int) : KernelM Dev Int := do
  kfree (some edu)
  return ret

def errDisable (edu : Nat) (ret : Int) : KernelM Dev Int := do
  pciDisableDevice pdev
  errFree edu ret

def errRelease (edu : Nat) (ret : Int) : KernelM Dev Int := do
  pciReleaseRegion pdev
  errDisable pdev edu ret

/-- The rest of the probe, once the driver has everything. -/
def probeRegisters (edu : Nat) : KernelM Dev Int := do
  pciSetDrvdata pdev edu
  let deviceId ← ioread32 (← loadBar0 (some edu)) regId
  prInfo (.deviceId deviceId)
  iowrite32 kernel 0xDEADBEEF (← loadBar0 (some edu)) regScratch
  let scratch ← ioread32 (← loadBar0 (some edu)) regScratch
  prInfo (.scratch scratch)
  prInfo .ready
  return 0

def eduProbe : KernelM Dev Int := do
  prInfo (.probe pdev)
  match ← kzalloc kernel with
  | none => return -enomem
  | some edu =>
      let ret ← pciEnableDevice kernel pdev
      if ret ≠ 0 then errFree edu ret
      else
        let ret ← pciRequestRegion kernel pdev
        if ret ≠ 0 then errDisable pdev edu ret
        else
          let bar0 ← pciIomap kernel pdev
          storeBar0 edu bar0
          match bar0 with
          | none => errRelease pdev edu (-enomem)
          | some _ => probeRegisters kernel pdev edu

/-- The pointer to the data is read before it is freed. -/
def eduRemove : KernelM Dev Unit := do
  let edu ← pciGetDrvdata pdev
  prInfo (.remove pdev)
  pciIounmap (← loadBar0 edu)
  pciReleaseRegion pdev
  pciDisableDevice pdev
  kfree edu

end Driver

inductive BusEvent (Dev : Type) where
  | bind (pdev : Dev)
  | unbind (pdev : Dev)

/-- The bus binds a device that is free, when its probe returns zero, and frees one that is bound. -/
def busStep (kernel : Kernel) (m : KernelMachine Dev) :
    BusEvent Dev → Except KernelBug (Option Int × KernelMachine Dev)
  | .bind pdev =>
      if pdev ∈ m.bound then .ok (none, m)
      else do
        let (ret, m) ← eduProbe kernel pdev m
        return (some ret, if ret = 0 then { m with bound := insert pdev m.bound } else m)
  | .unbind pdev =>
      if pdev ∈ m.bound then do
        let ((), m) ← eduRemove pdev m
        return (some 0, { m with bound := m.bound.erase pdev })
      else .ok (none, m)

end EduDevices
