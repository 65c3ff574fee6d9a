import EduDevices.Construction.Aes
import EduDevices.Construction.Crypto
import EduDevices.Construction.CryptoDriver
import EduDevices.Construction.DmaDriver
import EduDevices.Construction.Function
import EduDevices.Construction.LinuxDriver
import EduDevices.Construction.Nvme
import EduDevices.Construction.NvmeDriver
import EduDevices.Construction.PciState
import EduDevices.Construction.Registers
import EduDevices.Construction.Ring
import EduDevices.Construction.RingDriver
import EduDevices.Construction.Sriov
import EduDevices.Construction.UsbCounter
import EduDevices.Construction.UsbSerial
import EduDevices.Construction.Vfio
import EduDevices.Library.Areas
import EduDevices.Library.BinaryField
import EduDevices.Library.BlockDevice
import EduDevices.Library.BlockStore
import EduDevices.Library.CString
import EduDevices.Library.Chaining
import EduDevices.Library.CircularQueue
import EduDevices.Library.Cyclic
import EduDevices.Library.Dma
import EduDevices.Library.Execution
import EduDevices.Library.Fips197
import EduDevices.Library.Footprint
import EduDevices.Library.Host
import EduDevices.Library.Memory
import EduDevices.Library.Parties
import EduDevices.Library.Refinement
import EduDevices.Library.RegisterFile
import EduDevices.Proof.AesChaining
import EduDevices.Proof.AesInverse
import EduDevices.Proof.AesStandard
import EduDevices.Proof.CopyPaths
import EduDevices.Proof.CounterPackets
import EduDevices.Proof.CryptoChunks
import EduDevices.Proof.CryptoDriver
import EduDevices.Proof.CryptoExchange
import EduDevices.Proof.CryptoKey
import EduDevices.Proof.CryptoLength
import EduDevices.Proof.CryptoRegisters
import EduDevices.Proof.CryptoSecrecy
import EduDevices.Proof.CryptoService
import EduDevices.Proof.CryptoSession
import EduDevices.Proof.CryptoSpill
import EduDevices.Proof.DmaDriver
import EduDevices.Proof.EngineBuffers
import EduDevices.Proof.EngineFootprint
import EduDevices.Proof.EngineIndependence
import EduDevices.Proof.FailedRead
import EduDevices.Proof.FunctionIsolation
import EduDevices.Proof.LinuxDriver
import EduDevices.Proof.NvmeBounds
import EduDevices.Proof.NvmeControl
import EduDevices.Proof.NvmeDisabled
import EduDevices.Proof.NvmeDriver
import EduDevices.Proof.NvmeFailure
import EduDevices.Proof.NvmeFetch
import EduDevices.Proof.NvmeFlow
import EduDevices.Proof.NvmeHead
import EduDevices.Proof.NvmePhase
import EduDevices.Proof.NvmeQueue
import EduDevices.Proof.NvmeRange
import EduDevices.Proof.NvmeSession
import EduDevices.Proof.NvmeStatus
import EduDevices.Proof.NvmeStep
import EduDevices.Proof.NvmeStorage
import EduDevices.Proof.NvmeStore
import EduDevices.Proof.NvmeTermination
import EduDevices.Proof.PfInterrupts
import EduDevices.Proof.PfOperations
import EduDevices.Proof.RegisterFile
import EduDevices.Proof.RegisterHalves
import EduDevices.Proof.RegisterWindows
import EduDevices.Proof.RingChannel
import EduDevices.Proof.RingCoalescing
import EduDevices.Proof.RingDriver
import EduDevices.Proof.RingInvariant
import EduDevices.Proof.RingProtocol
import EduDevices.Proof.RingReference
import EduDevices.Proof.RingSafety
import EduDevices.Proof.RingStatus
import EduDevices.Proof.RingStep
import EduDevices.Proof.SerialBounds
import EduDevices.Proof.SerialEcho
