import EduDevices.Construction.UsbSerial

namespace EduDevices

inductive USBToken where
  | tokenIn
  | tokenOut
  deriving DecidableEq, Repr

structure USBDataPacket extends USBPacket where
  pid : USBToken

/-- The USB core asserts that a packet holds the bytes that are copied; a failed assertion ends the
machine. -/
inductive USBFault where
  | assertion
  deriving DecidableEq, Repr

/-- A copy goes from the local buffer to an IN packet, and from an OUT packet to the buffer. It gives
the bytes that the packet carries to the host and the buffer. -/
def usbPacketCopy (p : USBDataPacket) (buf : Vector Byte 64) (bytes : Nat) :
    Except USBFault (List Byte × Vector Byte 64) :=
  if bytes > p.iov.length then .error .assertion
  else
    match p.pid with
    | .tokenIn => .ok (buf.toList.take bytes, buf)
    | .tokenOut =>
        .ok ([], Vector.ofFn fun i => if i.val < bytes then p.iov.getD i.val 0 else buf[i.val])

structure USBEduState where
  counter : BitVec 32

/-- QEMU creates its devices filled with zeros. -/
def USBEduState.powerOn : USBEduState := ⟨0⟩

/-- The state after a packet, the status of the packet and the bytes that it carries to the host. -/
structure CounterOutcome where
  state : USBEduState
  status : USBReturn
  data : List Byte

def usbEduHandleReset (s : USBEduState) : USBEduState := { s with counter := 0 }

/-- The local buffer starts with the given bytes, which nothing has set. -/
def usbEduHandleData (unset : Vector Byte 64) (s : USBEduState) (p : USBDataPacket) :
    Except USBFault CounterOutcome :=
  match p.ep with
  | 1 =>
      if p.pid = .tokenIn then do
        let buf := unset.set 0 ((s.counter &&& (0xFF : BitVec 32)).setWidth 8)
        let buf := buf.set 1 (((s.counter >>> 8) &&& (0xFF : BitVec 32)).setWidth 8)
        let buf := buf.set 2 (((s.counter >>> 16) &&& (0xFF : BitVec 32)).setWidth 8)
        let buf := buf.set 3 (((s.counter >>> 24) &&& (0xFF : BitVec 32)).setWidth 8)
        let (data, _) ← usbPacketCopy p buf 4
        .ok ⟨s, .success, data⟩
      else .ok ⟨s, .success, []⟩
  | 2 =>
      if p.pid = .tokenOut then do
        let (_, buf) ← usbPacketCopy p unset 4
        -- The shift into the sign of an `int` keeps the bits.
        let counter : BitVec 32 := buf[0].setWidth 32 ||| (buf[1].setWidth 32 <<< 8) |||
          (buf[2].setWidth 32 <<< 16) ||| (buf[3].setWidth 32 <<< 24)
        .ok ⟨{ s with counter }, .success, []⟩
      else .ok ⟨s, .success, []⟩
  | _ => .ok ⟨s, .stall, []⟩

inductive CounterInput where
  | reset
  | packet (p : USBDataPacket)

/-- An input with the answer to it. -/
structure CounterRecord where
  input : CounterInput
  status : USBReturn
  data : List Byte

/-- A machine keeps the records of its run, the oldest first. -/
abbrev CounterMachine := USBEduState × List CounterRecord

def usbEduStep (unset : CounterMachine → Vector Byte 64) (machine : CounterMachine) :
    CounterInput → Except USBFault CounterMachine
  | .reset => .ok (usbEduHandleReset machine.1, machine.2 ++ [⟨.reset, .success, []⟩])
  | .packet p => do
      let outcome ← usbEduHandleData (unset machine) machine.1 p
      .ok (outcome.state, machine.2 ++ [⟨.packet p, outcome.status, outcome.data⟩])

end EduDevices
