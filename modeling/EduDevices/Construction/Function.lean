import EduDevices.Construction.Crypto
import EduDevices.Construction.Registers
import EduDevices.Construction.Ring

namespace EduDevices

/-- The register windows of the physical function. -/
inductive Bar where
  | bar0
  | bar4
  | bar5
  deriving DecidableEq

structure PfWrite where
  bar : Bar
  write : HostWrite

/-- The memory core passes four-byte writes on to the handler of the window. -/
def pfAccess (dma : Dma DmaDescriptor) (machine : EduPciState × Guest DmaDescriptor)
    (access : PfWrite) : PciOutcome :=
  match access.bar with
  | .bar0 =>
      .ok (eduPciWrite dma machine.1 (machine.2.rewrite access.write.host) access.write.addr
        (access.write.val.setWidth 64))
  | .bar4 => ringAccess dma machine access.write
  | .bar5 => .ok (cryptoAccess dma machine access.write)

/-- The virtual function has one window, which takes four-byte writes as well. -/
def vfAccess (dma : Dma DmaDescriptor) (machine : EduPciVfState × Guest DmaDescriptor)
    (write : HostWrite) : EduPciVfState × Guest DmaDescriptor :=
  eduVfWrite dma machine.1 (machine.2.rewrite write.host) write.addr (write.val.setWidth 64)

end EduDevices
