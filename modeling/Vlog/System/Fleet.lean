import Vlog.Emulator.Lemmas.Sockets
import Vlog.Runner.Marks

/-!
# Runners and their collector

Any number of runners ship their records to one collector. The collector knows a connection by the
order in which it was accepted, a runner by the order in which it was opened; `owner` tells for each
accepted connection whose it is. Other programs may connect as well and send anything.
-/

namespace Vlog.System

open Vlog.Lib Vlog.Libc Vlog.Runner Vlog.Emulator

structure Fleet (ι : Type*) where
  runners : ι → Serving
  world : World

variable {ι : Type*}

def Fleet.wire (s : Fleet ι) (p : ι × Nat) : List (Nat × Byte) := (s.runners p.1).ship.wire p.2

/-- What has arrived on a runner's connection is the front of what the runner's writes accepted. -/
def Fleet.Carried (owner : Nat → Option (ι × Nat)) (s : Fleet ι) : Prop :=
  ∀ k p, owner k = some p → s.world.sent k <+: (s.wire p).map Prod.snd

inductive Fleet.Step [DecidableEq ι] (info : Nat → Int × List Byte)
    (owner : Nat → Option (ι × Nat)) : Fleet ι → List Event → Fleet ι → Prop
  | runner {s i r} : Serving.Step info (s.runners i) r →
      Step info owner s [] { s with runners := Function.update s.runners i r }
  | collector {s es w} : World.Step s.world es w →
      Fleet.Carried owner { s with world := w } → Step info owner s es { s with world := w }

def Fleet.start (runners : ι → Serving) (l : Listener) : Fleet ι :=
  { runners := runners, world := .start l }

/-- How many bytes of connection `k` the collector has fed. -/
def Fleet.fed (s : Fleet ι) (k : Nat) (es : List Event) : Nat :=
  (bytesOf k es).length - (unfedOf k s.world.l.abs.unfed).length

/-- The records of a runner whose lines the collector has fed to the end on connection `k`. -/
def Fleet.delivered (s : Fleet ι) (k : Nat) (p : ι × Nat) (es : List Event) : List Nat :=
  recordEnds ((s.wire p).take (s.fed k es))

end Vlog.System
