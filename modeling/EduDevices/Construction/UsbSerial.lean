import EduDevices.Library.CString
import EduDevices.Library.Execution

namespace EduDevices

open CString

/-- A data packet has the number of its endpoint and the buffer that the host gave it. The
descriptors make endpoints 1 and 2 take IN packets and endpoint 3 take OUT packets. -/
structure USBPacket where
  ep : Nat
  iov : List Byte

inductive USBReturn where
  | success
  | nak
  | stall
  deriving DecidableEq, Repr

/-- The length is one that `snprintf` returned, or zero. -/
structure USBEduSerialState where
  counter : BitVec 32
  rxBuf : Vector Byte 64
  rxLen : Nat

/-- QEMU creates its devices filled with zeros. -/
def USBEduSerialState.powerOn : USBEduSerialState where
  counter := 0
  rxBuf := Vector.replicate 64 0
  rxLen := 0

/-- The trace tells which bytes of the local buffer a packet writes, how many bytes a format call
stores in the reply buffer, and which bytes a packet copies out of the reply buffer. -/
inductive SerialAccess where
  | bufWrite (index : Nat)
  | rxStore (count : Nat)
  | rxRead (index : Nat)
  deriving DecidableEq, Repr

/-- The state after a packet, the status of the packet, the bytes that it carries to the host, and
the accesses that were made for it. -/
structure SerialOutcome where
  state : USBEduSerialState
  status : USBReturn
  data : List Byte
  accesses : List SerialAccess

def usbEduSerialReset (s : USBEduSerialState) : USBEduSerialState :=
  { s with counter := 0, rxLen := 0 }

/-- This is the format `[%d] %s`. -/
def replyText (counter : BitVec 32) (buf : List Byte) : List Byte :=
  ofChar '[' :: signedDecimal counter.toInt ++ [ofChar ']', ofChar ' '] ++ characters buf

/-- What the memory holds past the end of the reply buffer, where the length is stored first. -/
abbrev Beyond := USBEduSerialState → Nat → Byte

def USBEduSerialState.rxByte (beyond : Beyond) (s : USBEduSerialState) (index : Nat) : Byte :=
  if inside : index < 64 then s.rxBuf[index] else beyond s index

def usbEduSerialHandleData (beyond : Beyond) (s : USBEduSerialState) (p : USBPacket) :
    SerialOutcome :=
  match p.ep with
  | 1 => ⟨s, .nak, [], []⟩
  | 2 =>
      if s.rxLen > 0 then
        let len := if s.rxLen > p.iov.length then p.iov.length else s.rxLen
        ⟨{ s with rxLen := 0 }, .success, (List.range len).map (s.rxByte beyond),
          (List.range len).map .rxRead⟩
      else ⟨s, .nak, [], []⟩
  | 3 =>
      let len := p.iov.length
      -- A packet that fills the buffer puts this NUL behind it.
      let buf := p.iov ++ [0]
      let counter := s.counter + 1
      let text := replyText counter buf
      let (rxBuf, rxLen) := snprintf s.rxBuf text
      ⟨{ s with counter, rxBuf, rxLen }, .success, [],
        (List.range len).map .bufWrite ++ [.bufWrite len, .rxStore (terminated 64 text).length]⟩
  | _ => ⟨s, .stall, [], []⟩

abbrev SerialMachine := USBEduSerialState × List SerialAccess

inductive SerialInput where
  | reset
  | packet (p : USBPacket)

/-- No packet makes the device fault. -/
def usbEduSerialStep (beyond : Beyond) (machine : SerialMachine) :
    SerialInput → Except Empty SerialMachine
  | .reset => .ok (usbEduSerialReset machine.1, machine.2)
  | .packet p =>
      let outcome := usbEduSerialHandleData beyond machine.1 p
      .ok (outcome.state, machine.2 ++ outcome.accesses)

end EduDevices
