import Vlog.Lib.Ring
import Vlog.Vhost.Backend
import Vlog.Vhost.Sink

/-!
# What goes through the transmit queue (`vhost/backend.c`, `vhost/sink.c`)

The steps of the queue with the avail ring, whose entries stand for the bytes of the chains they name, and with
the sink, to which the handler gives each chain that it completes. `VIRTIO_RING_F_EVENT_IDX` is negotiated and
the rings are set up, as in the steps of the queue; between two kicks, QEMU may move the interrupt to another
eventfd.
-/

namespace Vlog.Vhost

open Vlog.Lib Vlog.Libc Vlog.Emulator

/-- The driver has written the entries `staged` and not stored the index yet. `published` and `unreported` are
not in the code: the chains published from the start on, and the number of those completed since the interrupt
was raised last. -/
structure Transmit where
  q : TxQueue
  avail : Nat → List Byte
  staged : List (List Byte)
  sink : VlogSink
  published : List (List Byte)
  unreported : Nat

def Transmit.start (x : UInt16) (callFd : Int) (avail : Nat → List Byte) : Transmit :=
  { q := .start x callFd, avail := avail, staged := [], sink := vlogSinkOpen, published := []
    unreported := 0 }

inductive Transmit.Step (num : Nat) : Transmit → List Signal → Transmit → Prop
  | write {t} (chain : List Byte) : t.q.drv = .idle → t.q.outstanding + t.staged.length < num →
      Step num t [] { t with
        avail := Function.update t.avail ((t.q.idx.toNat + t.staged.length) % num) chain
        staged := t.staged ++ [chain] }
  | store {t} : t.q.drv = .idle → t.staged ≠ [] →
      Step num t [] { t with
        q := { t.q with
          idx := t.q.idx + UInt16.ofNat t.staged.length
          outstanding := t.q.outstanding + t.staged.length
          drv := .stored t.q.idx (t.q.idx + UInt16.ofNat t.staged.length) }
        staged := []
        published := t.published ++ t.staged }
  | complete {t v n} : t.q.dev = .handling v n → t.q.lastAvail ≠ v →
      Step num t [] { t with
        q := { t.q with
          lastAvail := t.q.lastAvail + 1
          outstanding := t.q.outstanding - 1
          dev := .handling v (n + 1) }
        sink := (vlogSinkEmit t.sink (t.avail (t.q.lastAvail.toNat % num))).1
        unreported := t.unreported + 1 }
  | other {t es q} : TxQueue.Step num t.q es q → q.idx = t.q.idx → q.lastAvail = t.q.lastAvail →
      Step num t es { t with q := q, unreported := if .interrupt ∈ es then 0 else t.unreported }

/-- A step of device or driver, or `vu_set_vring_call_exec` while `tx_kick` is not running, which raises the
interrupt of the eventfd it is given. -/
inductive Transmit.Turn (num : Nat) : Transmit → List Signal → Transmit → Prop
  | step {t es t'} : Transmit.Step num t es t' → Turn num t es t'
  | setVringCall {t} (fd : Int) : t.q.dev = .idle →
      Turn num t (if fd = -1 then [] else [.interrupt]) { t with
        q := { t.q with callFd := fd }
        unreported := if fd = -1 then t.unreported else 0 }

/-- Nothing is left to do until the driver has something new. -/
def TxQueue.Quiet (q : TxQueue) : Prop := q.dev = .idle ∧ q.pending = false ∧ q.drv = .idle

/-! ## What is left to do

Each bounds the steps that come from it. A chain that is completed may have the device look again. -/

def Dev.work : Dev → Nat
  | .idle => 0
  | .handle => 6
  | .handling _ n => if n = 0 then 5 else 12
  | .publish n => if n = 0 then 4 else 11
  | .recheck n => if n = 0 then 3 else 10

def Drv.work : Drv → Nat
  | .idle => 0
  | .stored _ _ => 16
  | .kick => 8

def TxQueue.work (q : TxQueue) : Nat :=
  8 * q.outstanding + q.drv.work + q.dev.work + if q.pending then 7 else 0

/-- A step in which the driver writes and stores nothing, counted. -/
def Transmit.Settles (num : Nat) (t : Transmit) (steps : List Unit) (t' : Transmit) : Prop :=
  steps = [()] ∧ (∃ es, Transmit.Step num t es t') ∧ t'.staged = t.staged ∧ t'.published = t.published

end Vlog.Vhost
