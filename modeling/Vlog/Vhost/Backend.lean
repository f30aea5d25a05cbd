import Mathlib

/-!
# Notification of the transmit queue (`vhost/backend.c`)

The device's `tx_kick` and the driver, each as a sequence of steps on shared memory, with
`VIRTIO_RING_F_EVENT_IDX` negotiated and the rings set up. `vlog_virtq_handle` appears through its
contract: it reads `avail->idx` once, completes the chains up to there one by one, and returns their
number.
-/

namespace Vlog.Vhost

def vringNeedEvent (eventIdx newIdx old : UInt16) : Bool := newIdx - eventIdx - 1 < newIdx - old

/-- Where the device is. `handle` is in front of the handler's load of `avail->idx`; the others know
the number `n` of chains that the call has completed. -/
inductive Dev
  | idle
  | handle
  | handling (v : UInt16) (n : Nat)
  | publish (n : Nat)
  | recheck (n : Nat)
  deriving DecidableEq

/-- Where the driver is: it has stored `new` over `old`, or it has decided to kick. -/
inductive Drv
  | idle
  | stored (old new : UInt16)
  | kick
  deriving DecidableEq

/-- `avail->idx`, `avail_event`, `last_avail`, `total` and `call_fd`, with the pending kick. `outstanding` is
not in the code: the number of chains published and not completed. -/
structure TxQueue where
  idx : UInt16
  availEvent : UInt16
  lastAvail : UInt16
  total : Nat
  callFd : Int
  pending : Bool
  outstanding : Nat
  dev : Dev
  drv : Drv
  deriving DecidableEq

def TxQueue.start (x : UInt16) (callFd : Int) : TxQueue :=
  { idx := x, availEvent := x, lastAvail := x, total := 0, callFd := callFd, pending := false
    outstanding := 0, dev := .idle, drv := .idle }

/-- The eventfd that is written. -/
inductive Signal
  | kick
  | interrupt
  deriving DecidableEq

def TxQueue.finish (q : TxQueue) : TxQueue × List Signal :=
  ({ q with dev := .idle }, if 0 < q.total ∧ 0 ≤ q.callFd then [.interrupt] else [])

inductive TxQueue.Step (num : Nat) : TxQueue → List Signal → TxQueue → Prop
  | begin {q} : q.dev = .idle → q.pending = true →
      Step num q [] { q with dev := .handle, pending := false, total := 0 }
  | load {q} : q.dev = .handle → Step num q [] { q with dev := .handling q.idx 0 }
  | complete {q v n} : q.dev = .handling v n → q.lastAvail ≠ v →
      Step num q [] { q with
        lastAvail := q.lastAvail + 1
        outstanding := q.outstanding - 1
        dev := .handling v (n + 1) }
  | handled {q v n} : q.dev = .handling v n → q.lastAvail = v →
      Step num q [] { q with total := q.total + n, dev := .publish n }
  | publish {q n} : q.dev = .publish n →
      Step num q [] { q with availEvent := q.lastAvail, dev := .recheck n }
  | caughtUp {q n} : q.dev = .recheck n → q.idx = q.lastAvail → Step num q q.finish.2 q.finish.1
  | noProgress {q n} : q.dev = .recheck n → q.idx ≠ q.lastAvail → n = 0 →
      Step num q q.finish.2 q.finish.1
  | again {q n} : q.dev = .recheck n → q.idx ≠ q.lastAvail → n ≠ 0 →
      Step num q [] { q with dev := .handle }
  | store {q} (k : Nat) : q.drv = .idle → 1 ≤ k → q.outstanding + k ≤ num →
      Step num q [] { q with
        idx := q.idx + UInt16.ofNat k
        outstanding := q.outstanding + k
        drv := .stored q.idx (q.idx + UInt16.ofNat k) }
  | decide {q old new} : q.drv = .stored old new →
      Step num q [] { q with
        drv := if vringNeedEvent q.availEvent new old then .kick else .idle }
  | kick {q} : q.drv = .kick → Step num q [.kick] { q with pending := true, drv := .idle }

end Vlog.Vhost
