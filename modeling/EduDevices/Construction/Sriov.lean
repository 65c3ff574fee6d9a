import EduDevices.Construction.Function
import EduDevices.Library.Parties

namespace EduDevices

/-- The device has one physical function, and virtual ones that are numbered from zero on. -/
inductive BusFunction where
  | physical
  | virtual (number : Nat)
  deriving DecidableEq, Repr

namespace BusFunction

abbrev State : BusFunction → Type
  | physical => EduPciState
  | virtual _ => EduPciVfState

abbrev Write : BusFunction → Type
  | physical => PfWrite
  | virtual _ => HostWrite

/-- What the host does to its memory before a write. -/
def host : (f : BusFunction) → f.Write → Memory → Memory
  | physical, access => access.write.host
  | virtual _, write => write.host

def access (dma : Dma DmaDescriptor) : (f : BusFunction) → f.State × Guest DmaDescriptor →
    f.Write → Except Fault (f.State × Guest DmaDescriptor)
  | physical, machine, access => pfAccess dma machine access
  | virtual _, machine, write => .ok (vfAccess dma machine write)

end BusFunction

/-- The memory core hands four bytes of what the handler of the window returns to the host. -/
def pfRead (unset : BitVec 64) (s : EduPciState) (bar : Bar) (addr : BitVec 64) : BitVec 32 :=
  match bar with
  | .bar0 => (eduPciRead s addr).setWidth 32
  | .bar4 => (eduRingRead s addr).setWidth 32
  | .bar5 => (eduCryptoRead s addr 4 unset).setWidth 32

def vfRead (vfNum : BitVec 16) (s : EduPciVfState) (addr : BitVec 64) : BitVec 32 :=
  (eduVfRead vfNum s addr).setWidth 32

inductive BusRegister where
  | physical (bar : Bar) (addr : BitVec 64)
  | virtual (number : Nat) (addr : BitVec 64)
  deriving DecidableEq

/-- Where a write goes, and its word. -/
def BusRegister.target : (Σ f : BusFunction, f.Write) → BusRegister × BitVec 32
  | ⟨.physical, access⟩ => (.physical access.bar access.write.addr, access.write.val)
  | ⟨.virtual number, write⟩ => (.virtual number write.addr, write.val)

def BusRegister.read (unset : BitVec 64) (states : ∀ f : BusFunction, f.State) :
    BusRegister → BitVec 32
  | physical bar addr => pfRead unset (states .physical) bar addr
  | virtual number addr => vfRead (BitVec.ofNat 16 number) (states (.virtual number)) addr

/-- Each function has a bus of its own, and all of them reach the memory of one guest. -/
def sriovAccess (dma : BusFunction → Dma DmaDescriptor) :
    (∀ f : BusFunction, f.State) × Guest DmaDescriptor → (Σ f : BusFunction, f.Write) →
      Except Fault ((∀ f : BusFunction, f.State) × Guest DmaDescriptor) :=
  sharedStep fun f => f.access (dma f)

end EduDevices
