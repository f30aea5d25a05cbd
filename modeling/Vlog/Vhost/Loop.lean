import Vlog.Lib.Run
import Vlog.Vhost.Device

/-!
# Dispatch and the loop of the backend (`vhost/libvhost-user.c`, `vhost/backend.c`)

One iteration of `main`'s loop: a message is read, handled and answered if the socket is readable, and
each descriptor that `poll` reports is called back as long as the table has it.
-/

namespace Vlog.Vhost

open Vlog.Lib
open Vlog.Emulator (Pollfd pollin pollhup)

/-- What `recvmsg` returns, `none` for an error, with the descriptors that came along, and what the
`read` of the payload returns, `none` for an error. The end of the stream is a header of zeros. -/
structure Packet where
  header : Option (Int32 × UInt32 × UInt32)
  fds : List Int
  body : Option (List UInt8)

/-- `vu_message_read_default`. The assertion compares the size of the descriptors in bytes. -/
def vuMessageReadDefault (p : Packet) : Except Halt VhostUserMsg :=
  match p.header with
  | none => .error (.exit 1)
  | some (request, flags, size) =>
      if ¬ 4 * p.fds.length < vhostMemoryBaselineNregions then .error .abort
      else if payloadSize < size.toNat then .error (.exit 1)
      else if size = 0 then
        .ok { request := request, flags := flags, size := size, payload := fun _ => 0, fds := p.fds }
      else match p.body with
        | none | some [] => .error (.exit 1)
        | some bytes =>
            if bytes.length = size.toNat then
              .ok { request := request, flags := flags, size := size
                    payload := fun i => bytes.getD i 0, fds := p.fds }
            else .error .abort

/-- `vu_send_reply` -/
def replyHeader (m : VhostUserMsg) : VhostUserMsg :=
  { m with flags := m.flags &&& ~~~versionMask ||| userVersion ||| replyMask }

structure Dispatched where
  dev : VuDev
  effects : List Effect
  sent : Option VhostUserMsg

def finishDispatch (m : VhostUserMsg) (h : Handling) (x : Answer) : Except Halt Dispatched :=
  let es := m.fds.map .received ++ h.effects
  let needReply := m.flags &&& needReplyMask ≠ 0
  let reply :=
    if h.reply then some h.msg
    else if needReply then some (vmsgSetReplyU64 h.msg 0)
    else none
  match reply with
  | none => .ok { dev := h.dev, effects := es, sent := none }
  | some r =>
      if x.replied then .ok { dev := h.dev, effects := es, sent := some (replyHeader r) }
      else .error (.exit 1)

/-- `vu_dispatch`. Where the source returns false it has panicked before. -/
def vuDispatch (d : VuDev) (p : Packet) (x : Answer) : Except Halt Dispatched := do
  let m ← vuMessageReadDefault p
  let h ← vuProcessMessage d m x
  finishDispatch m h x

/-- `vu_kick_cb` -/
def vuKickCb (d : VuDev) (i : Nat) (x : Answer) : Except Halt (VuDev × List Effect) :=
  if x.drain then
    let t := if (d.vq i).handler then txKick d i x else (d, [])
    .ok (t.1, .drain (d.vq i).kickFd :: t.2)
  else .error (.exit 1)

/-! ## The loop -/

structure Backend where
  dev : VuDev
  w : Watches Unit Nat

def Backend.start : Backend := { dev := vuInit 2, w := .empty }

def watchOps (es : List Effect) : List (WatchOp Unit Nat) :=
  es.filterMap fun | .watch op => some op | _ => none

/-- The kicks that are read and the calls of `tx_kick` -/
def kicksOf (es : List Effect) : List Effect := es.filter fun | .drain _ | .txKick _ => true | _ => false

/-- What `poll` reports for `p[k]`, what is read, and the answers while the message and the kick of
`p[k]` are handled. -/
structure Iteration where
  revents : Nat → UInt16
  packet : Packet
  answer : Answer
  kick : Nat → Answer

/-- `p[1..n)` behind `poll` -/
def Backend.polled (b : Backend) (x : Iteration) : List Pollfd :=
  b.w.rows.mapIdx fun i r => { fd := r.fd, revents := x.revents (i + 1) }

def Iteration.dispatches (x : Iteration) : Prop := x.revents 0 &&& (pollin ||| pollhup) ≠ 0

instance (x : Iteration) : Decidable x.dispatches := inferInstanceAs (Decidable (_ ≠ _))

def Backend.dispatch (b : Backend) (x : Iteration) : Except Halt (Backend × List Effect) :=
  if x.dispatches then do
    let r ← vuDispatch b.dev x.packet x.answer
    return ({ dev := r.dev, w := b.w.applyAll (watchOps r.effects) }, r.effects)
  else return (b, [])

/-- The loop over `p[k..n)` -/
def Backend.serve (kick : Nat → Answer) (k : Nat) (b : Backend) :
    List Pollfd → Except Halt (Backend × List Effect)
  | [] => return (b, [])
  | p :: ps =>
      if p.revents &&& pollin = 0 then b.serve kick (k + 1) ps
      else match b.w.rows.find? (Watch.fd · = p.fd) with
        | none => b.serve kick (k + 1) ps
        | some r => do
            let t ← vuKickCb b.dev r.data (kick k)
            let u ← Backend.serve kick (k + 1) { b with dev := t.1, w := b.w.applyAll (watchOps t.2) } ps
            return (u.1, t.2 ++ u.2)

def Backend.iterate (b : Backend) (x : Iteration) : Except Halt (Backend × List Effect) := do
  let r ← b.dispatch x
  let t ← r.1.serve x.kick 1 (b.polled x)
  return (t.1, r.2 ++ t.2)

end Vlog.Vhost
