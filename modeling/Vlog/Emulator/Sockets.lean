import Vlog.Emulator.Collector

/-!
# Producers and their sockets

The listener together with the receive queues that its `read` takes from. A producer's bytes arrive
in the queue of its connection until it hangs up, at any time between two steps of the listener.
-/

namespace Vlog.Emulator

open Vlog.Lib Vlog.Libc

/-- `sent k` is everything that ever arrived for connection `k`, and `rx k` what of it is still in
the receive queue. -/
structure World where
  l : Listener
  sent : Nat → List Byte
  rx : Nat → List Byte
  hup : Nat → Bool

def World.start (l : Listener) : World :=
  { l := l, sent := fun _ => [], rx := fun _ => [], hup := fun _ => false }

inductive World.Step : World → List Event → World → Prop
  | arrive {w k} (bytes) : w.hup k = false →
      Step w [] { w with
        sent := Function.update w.sent k (w.sent k ++ bytes)
        rx := Function.update w.rx k (w.rx k ++ bytes) }
  | hangup {w} (k) : Step w [] { w with hup := Function.update w.hup k true }
  | read {w l k bytes rest} : Emulator.Step w.l [.read k bytes] l → w.rx k = bytes ++ rest →
      Step w [.read k bytes] { w with l := l, rx := Function.update w.rx k rest }
  | listen {w l es} : Emulator.Step w.l es l → (∀ k, bytesOf k es = []) →
      Step w es { w with l := l }

/-- The complete lines among the bytes that arrived for connection `k` have all been appended, each
once and in order. -/
def NoLoss (k : Nat) (es : List Event) (sent : List Byte) : Prop :=
  (completed newline lineBound sent).map parseLine <+:
    (recordsOf k es).map fun r => (r.level, r.bytes)

end Vlog.Emulator
