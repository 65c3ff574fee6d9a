import EduDevices.Construction.Crypto
import EduDevices.Construction.Vfio

namespace EduDevices

abbrev srcIova : Address := 0x300000
abbrev dstIova : Address := 0x301000

abbrev CryptoDevice := VfioDevice EduPciState DmaDescriptor

namespace CryptoDevice

variable (dma : Dma DmaDescriptor)

def writeReg (dev : CryptoDevice) (off : BitVec 64) (val : BitVec 32) : CryptoDevice :=
  let (device, guest) := cryptoAccess dma (dev.device, dev.guest) ⟨id, off, val⟩
  { dev with device, guest }

/-- A block of sixteen bytes is written as four words. -/
def writeBlock (dev : CryptoDevice) (base : BitVec 64) (block : Aes.AesBlock) : CryptoDevice :=
  [0, 4, 8, 12].foldl (fun dev i =>
    writeReg dma dev (base + BitVec.ofNat 64 i) (wordAt 32 block.toList i)) dev

def setKey (dev : CryptoDevice) (key : Aes.AesBlock) : CryptoDevice :=
  writeBlock dma dev regCryptoKey key

def setIv (dev : CryptoDevice) (iv : Aes.AesBlock) : CryptoDevice :=
  writeBlock dma dev regCryptoIv iv

/-- A transformation that times out leaves the buffer of its caller alone. -/
def transform (dev : CryptoDevice) (command : BitVec 32) (text : List Byte) :
    Option (List Byte) × CryptoDevice :=
  let dev := dev.memcpy srcIova text
  let dev := dev.memcpy dstIova (List.replicate pageSize 0)
  let dev := writeReg dma dev regCryptoSrcLo ((srcIova &&& 0xFFFFFFFF).setWidth 32)
  let dev := writeReg dma dev regCryptoSrcHi ((srcIova >>> 32).setWidth 32)
  let dev := writeReg dma dev regCryptoDstLo ((dstIova &&& 0xFFFFFFFF).setWidth 32)
  let dev := writeReg dma dev regCryptoDstHi ((dstIova >>> 32).setWidth 32)
  let dev := writeReg dma dev regCryptoLen (BitVec.ofNat 32 text.length)
  let dev := writeReg dma dev regCryptoCmd command
  let (raised, dev) := dev.waitInterrupt
  if raised then (some (dev.guest.memory.read dstIova text.length), dev) else (none, dev)

def encrypt (dev : CryptoDevice) (plaintext : List Byte) : Option (List Byte) × CryptoDevice :=
  transform dma dev ((cryptoCmdStart ||| cryptoCmdEncrypt).setWidth 32) plaintext

def decrypt (dev : CryptoDevice) (ciphertext : List Byte) : Option (List Byte) × CryptoDevice :=
  transform dma dev (cryptoCmdStart.setWidth 32) ciphertext

end CryptoDevice

inductive CryptoCall where
  | setKey (key : Aes.AesBlock)
  | setIv (iv : Aes.AesBlock)
  | encrypt (plaintext : List Byte)
  | decrypt (ciphertext : List Byte)
  deriving DecidableEq

inductive CryptoReply where
  | set
  | text (result : Option (List Byte))
  deriving DecidableEq

def CryptoDevice.call (dma : Dma DmaDescriptor) (dev : CryptoDevice) :
    CryptoCall → Except Fault (CryptoReply × CryptoDevice)
  | .setKey key => .ok (.set, setKey dma dev key)
  | .setIv iv => .ok (.set, setIv dma dev iv)
  | .encrypt plaintext =>
      let (result, dev) := encrypt dma dev plaintext
      .ok (.text result, dev)
  | .decrypt ciphertext =>
      let (result, dev) := decrypt dma dev ciphertext
      .ok (.text result, dev)

end EduDevices
