import EduDevices.Library.Host
import EduDevices.Construction.PciState

namespace EduDevices

variable {Device Mark : Type}

abbrev pageSize : Nat := 4096

/-- The host holds a device with the memory that they share and a descriptor of its interrupt. -/
structure VfioDevice (Device Mark : Type) where
  device : Device
  guest : Guest Mark
  events : EventFd

namespace VfioDevice

def waitInterrupt (dev : VfioDevice Device Mark) : Bool × VfioDevice Device Mark :=
  let (raised, events) := dev.events.wait dev.guest
  (raised, { dev with events })

theorem waitInterrupt_of_wait {dev : VfioDevice Device Mark} {raised : Bool} {events : EventFd}
    (waits : dev.events.wait dev.guest = (raised, events)) :
    dev.waitInterrupt = (raised, { dev with events }) := by
  rw [waitInterrupt, waits]

/-- The host copies bytes into the memory that it shares. -/
def memcpy (dev : VfioDevice Device Mark) (address : Address) (data : List Byte) :
    VfioDevice Device Mark :=
  { dev with guest := dev.guest.rewrite fun memory => memory.write address data }

@[simp] theorem memcpy_device (dev : VfioDevice Device Mark) (address : Address)
    (data : List Byte) : (dev.memcpy address data).device = dev.device := rfl

@[simp] theorem memcpy_events (dev : VfioDevice Device Mark) (address : Address)
    (data : List Byte) : (dev.memcpy address data).events = dev.events := rfl

@[simp] theorem memcpy_memory (dev : VfioDevice Device Mark) (address : Address)
    (data : List Byte) :
    (dev.memcpy address data).guest.memory = dev.guest.memory.write address data := rfl

@[simp] theorem memcpy_trace (dev : VfioDevice Device Mark) (address : Address)
    (data : List Byte) : (dev.memcpy address data).guest.trace = dev.guest.trace := rfl

section Registers

variable (read : Device → BitVec 64 → BitVec 64)
  (write : Device × Guest Mark → HostWrite → Except Fault (Device × Guest Mark))

def read32 (dev : VfioDevice Device Mark) (off : BitVec 64) : BitVec 32 :=
  (read dev.device off).setWidth 32

def write32 (dev : VfioDevice Device Mark) (off : BitVec 64) (val : BitVec 32) :
    Except Fault (VfioDevice Device Mark) := do
  let (device, guest) ← write (dev.device, dev.guest) ⟨id, off, val⟩
  return { dev with device, guest }

/-- The memory core splits an access of eight bytes, the low half first. -/
def write64 (dev : VfioDevice Device Mark) (off : BitVec 64) (val : BitVec 64) :
    Except Fault (VfioDevice Device Mark) := do
  let dev ← dev.write32 write off (val.setWidth 32)
  dev.write32 write (off + 4) ((val >>> 32).setWidth 32)

theorem write32_of_ok (dev : VfioDevice Device Mark) {off : BitVec 64} {val : BitVec 32}
    {next : Device × Guest Mark} (answers : write (dev.device, dev.guest) ⟨id, off, val⟩ = .ok next) :
    dev.write32 write off val = .ok { dev with device := next.1, guest := next.2 } := by
  rw [write32, answers]
  rfl

end Registers

end VfioDevice

end EduDevices
