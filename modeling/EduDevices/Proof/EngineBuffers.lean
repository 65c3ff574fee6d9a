import EduDevices.Proof.EngineIndependence
import EduDevices.Proof.PfOperations

namespace EduDevices

open Execution (run run_append run_cons_ok_iff Interleaving)

section Copying

variable (dma : Dma DmaDescriptor) (g : Guest DmaDescriptor) (src : Address) (length : Nat)

end Copying

end EduDevices
