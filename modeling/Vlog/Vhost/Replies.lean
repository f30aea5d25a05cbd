import Vlog.Vhost.Process

/-!
# Replies (`vhost/libvhost-user.c`)

The bytes that the backend writes to the socket, and what QEMU, which reads messages the way the library does,
takes from them.
-/

namespace Vlog.Vhost

open Vlog.Lib

/-! ## The socket -/

/-- `VHOST_USER_HDR_SIZE` -/
def hdrSize : Nat := 12

/-- What `vu_message_write` writes. The descriptors go along with the header. -/
def vuMessageWrite (m : VhostUserMsg) : List UInt8 :=
  Memory.leBytes 4 m.request.toUInt32.toNat ++ Memory.leBytes 4 m.flags.toNat ++
    Memory.leBytes 4 m.size.toNat ++ m.payload.slice 0 m.size.toNat

def headerWord (bs : List UInt8) (at' : Nat) : UInt32 :=
  UInt32.ofNat (Memory.ofLeBytes ((bs.drop at').take 4))

/-- What a reader of the stream `bs` is given by its two calls. -/
def nextPacket (bs : List UInt8) (fds : List Int) : Packet :=
  { header := some ((headerWord bs 0).toInt32, headerWord bs 4, headerWord bs 8)
    fds := fds
    body := some ((bs.drop hdrSize).take (headerWord bs 8).toNat) }

/-- `n` messages of the stream, without their descriptors, and what is behind them. -/
def readMessages : Nat → List UInt8 → Except Halt (List VhostUserMsg × List UInt8)
  | 0, bs => return ([], bs)
  | n + 1, bs => do
      let m ← vuMessageReadDefault (nextPacket bs [])
      let t ← readMessages n (bs.drop (hdrSize + m.size.toNat))
      return (m :: t.1, t.2)

/-! ## Messages that are answered -/

/-- The messages that the device answers of itself. The last one is not meant to be answered: it is where
`eventfd_write` fails. -/
def VhostUserMsg.replied (m : VhostUserMsg) (x : Answer) : Bool :=
  match m.request.toInt with
  | 1 | 6 | 11 | 15 | 17 | 24 | 36 | 41 => true
  | 13 => m.newFd ≠ -1 ∧ x.signal = false
  | _ => false

def VhostUserMsg.asks (m : VhostUserMsg) (x : Answer) : Bool :=
  m.replied x || m.flags &&& needReplyMask ≠ 0

/-- The features that the device offers. -/
def offered : UInt64 :=
  bit virtioFNotifyOnEmpty ||| bit virtioRingFIndirectDesc ||| bit virtioRingFEventIdx |||
    bit virtioFVersion1 ||| bit vhostFLogAll ||| bit vhostUserFProtocolFeatures

def offeredProtocol (userfault : Bool) : UInt64 :=
  bit protocolFMq ||| bit protocolFLogShmfd ||| bit protocolFBackendReq ||| bit protocolFHostNotifier |||
    bit protocolFBackendSendFd ||| bit protocolFReplyAck ||| bit protocolFConfigureMemSlots |||
    if userfault then bit protocolFPagefault else 0

/-- What the payload of the reply is to be. What the device does not answer of itself is acknowledged by 0. -/
def VhostUserMsg.replyBody (m : VhostUserMsg) (x : Answer) (d : VuDev) : List UInt8 :=
  if m.replied x then
    match m.request.toInt with
    | 1 => Memory.leBytes 8 offered.toNat
    | 15 => Memory.leBytes 8 (offeredProtocol x.userfault).toNat
    | 17 => Memory.leBytes 8 2
    | 36 => Memory.leBytes 8 vhostUserMaxRamSlots
    | 11 => m.payload.slice 0 4 ++ Memory.leBytes 4 (d.vq m.stateIndex).vuq.lastAvailIdx.toNat
    | 6 => m.payload.slice 0 8
    | 24 => []
    | _ => m.payload.slice 0 m.size.toNat
  else Memory.leBytes 8 0

/-! ## Conversations -/

/-- A message with the state in which it is handled, the answers of the system, and the reply. -/
structure Exchange where
  dev : VuDev
  msg : VhostUserMsg
  answer : Answer
  sent : Option VhostUserMsg

def Exchange.asks (e : Exchange) : Bool := e.msg.asks e.answer

def Exchange.written (e : Exchange) : List UInt8 := (e.sent.map vuMessageWrite).getD []

/-- What QEMU reads is the reply to the message. -/
structure Exchange.RepliedBy (e : Exchange) (r : VhostUserMsg) : Prop where
  request : r.request = e.msg.request
  version : r.flags &&& versionMask = userVersion
  reply : r.flags &&& replyMask ≠ 0
  body : r.payload.slice 0 r.size.toNat = e.msg.replyBody e.answer e.dev

def Iteration.exchange (y : Iteration) (d : VuDev) : List Exchange :=
  if y.dispatches then
    match vuMessageReadDefault y.packet, vuDispatch d y.packet y.answer with
    | .ok m, .ok r => [{ dev := d, msg := m, answer := y.answer, sent := r.sent }]
    | _, _ => []
  else []

/-- A step, with what is said in it. -/
def Process.Talk (s : Process) (xs : List Exchange) (s' : Process) : Prop :=
  ∃ y es, s.Takes y es s' ∧ xs = y.exchange s.backend.dev

/-! ## The position in the ring -/

/-- The message sets the position of queue `i`, or may start it. -/
def VhostUserMsg.Moves (m : VhostUserMsg) (i : Nat) : Prop :=
  m.request.toInt = 10 ∧ m.stateIndex = i ∨ m.request.toInt = 12 ∧ m.vringIndex = i ∨
    m.request.toInt = 35 ∧ m.stateIndex = i

def Process.RestStep (i : Nat) (s : Process) (es : List Effect) (s' : Process) : Prop :=
  ∃ y, (∀ m, y.Got m → ¬ m.Moves i) ∧ s.Takes y es s'

def VuDev.lastAvail (d : VuDev) (i : Nat) : UInt16 := (d.vq i).vuq.lastAvailIdx

/-- Nothing wakes the queue, and nothing handles it. -/
structure VuQueue.Stopped (q : VuQueue) : Prop where
  started : q.started = false
  kickFd : q.kickFd = -1
  handler : q.handler = false

/-- Queue `i` is stopped at position `x`, stays so until a message moves it, and starts there with its next
kick. -/
def Process.StoppedAt (s : Process) (i : Nat) (x : UInt16) : Prop :=
  ∀ es t, Run (Process.RestStep i) s es t →
    (t.backend.dev.vq i).Stopped ∧ t.backend.dev.lastAvail i = x ∧
    ∀ y fs u m, t.Takes y fs u → y.Got m → m.request.toInt = 12 → m.vringIndex = i →
      (u.backend.dev.vq i).started = true ∧ u.backend.dev.lastAvail i = x

end Vlog.Vhost
