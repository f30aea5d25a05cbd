import Vlog.Vhost.Resources

/-!
# The backend as a process

Iterations of the loop from the start on, beside the descriptors and mappings that the system keeps for the
process. QEMU sends no message of the postcopy or inflight extension and no table with more regions than
descriptors, and the system hands out only what is not live.
-/

namespace Vlog.Vhost

open Vlog.Lib
open Vlog.Emulator (pollin)

structure Process where
  backend : Backend
  live : Finset Resource
  stray : Multiset Resource

/-- `main` behind `vu_init`, with the descriptors and mappings that are there by then. -/
def Process.start (live : Finset Resource) : Process :=
  { backend := .start, live := live, stray := 0 }

/-- The descriptors that the message of the iteration leaves behind. -/
def Iteration.stray (x : Iteration) : List Int :=
  if x.dispatches then
    match vuMessageReadDefault x.packet with
    | .ok m => m.stray
    | .error _ => []
  else []

structure Iteration.Sound (x : Iteration) : Prop where
  proper : ∀ m, vuMessageReadDefault x.packet = .ok m → Proper m
  fds : ∀ fd ∈ x.packet.fds, 0 ≤ fd
  maps : x.answer.MapsSomewhere

structure Process.Takes (s : Process) (x : Iteration) (es : List Effect) (s' : Process) : Prop where
  sound : x.Sound
  iterate : s.backend.iterate x = .ok (s'.backend, es)
  granted : Granted s.live (acts es)
  live : s'.live = Lib.live s.live (acts es)
  stray : s'.stray = s.stray + heldFds x.stray

def Process.Step (s : Process) (es : List Effect) (s' : Process) : Prop := ∃ x, s.Takes x es s'

/-! ## Watches -/

/-- What is to be watched: the kick of the transmit queue. -/
def VuDev.txWatch (d : VuDev) : List (Watch Unit Nat) :=
  if (d.vq vqTx).kickFd = -1 then [] else [{ fd := (d.vq vqTx).kickFd, cb := (), data := vqTx }]

def Iteration.Got (y : Iteration) (m : VhostUserMsg) : Prop :=
  y.dispatches ∧ vuMessageReadDefault y.packet = .ok m

/-- The message takes the kick of the transmit queue away, for good or for another one. -/
def VhostUserMsg.Rekicks (m : VhostUserMsg) : Prop :=
  m.request.toInt = 11 ∧ m.stateIndex = vqTx ∨ m.request.toInt = 12 ∧ m.vringIndex = vqTx

def Iteration.Rekicks (x : Iteration) : Prop := ∃ m, x.Got m ∧ m.Rekicks

/-- The message is a kick of the transmit queue. -/
def Iteration.Inband (x : Iteration) : Prop := ∃ m, x.Got m ∧ m.request.toInt = 35 ∧ m.stateIndex = vqTx

/-- `poll` reports the kick of the transmit queue, and it is still the one when its turn comes. -/
def Process.Kicked (s : Process) (x : Iteration) : Prop :=
  (s.backend.dev.vq vqTx).kickFd ≠ -1 ∧ x.revents 1 &&& pollin ≠ 0 ∧ ¬ x.Rekicks

/-! ## Memory -/

/-- `r` has the address `a` of QEMU, and `va` is where the process sees it. -/
structure VuDevRegion.Maps (r : VuDevRegion) (a va : UInt64) : Prop where
  le : r.qva ≤ a
  lt : a.toNat < r.qva.toNat + r.size.toNat
  eq : va = r.mmapAddr + (r.mmapOffset + (a - r.qva))

/-- The addresses of the rings for QEMU, with where the queue has them. -/
def VuQueue.rings (q : VuQueue) : List (UInt64 × UInt64) :=
  [(q.vra.descUserAddr, q.vuq.vring.desc), (q.vra.availUserAddr, q.vuq.vring.avail),
    (q.vra.usedUserAddr, q.vuq.vring.used)]

/-- A ring that is set up lies in the region. -/
def VuDev.Uses (d : VuDev) (r : VuDevRegion) : Prop :=
  ∃ i < d.maxQueues, (d.vq i).vuq.vring.desc ≠ 0 ∧
    ∃ p ∈ (d.vq i).rings, d.regions.find? (·.covers p.1) = some r

/-- QEMU does not take away the memory of a ring that is set up. -/
def Process.KeepsRings (s : Process) (x : Iteration) : Prop :=
  ∀ m, x.Got m → m.request.toInt = 38 →
    ∀ r ∈ s.backend.dev.regions, regEqual r m.memregRegion → ¬ s.backend.dev.Uses r

def Process.CarefulStep (s : Process) (es : List Effect) (s' : Process) : Prop :=
  ∃ x, s.KeepsRings x ∧ s.Takes x es s'

/-- The contract of `virtq_gpa_to_hva`: the range lies in one region, at `hva` for the process. -/
def Translates (mem : List VirtqMemRegion) (gpa len hva : UInt64) : Prop :=
  ∃ v ∈ mem, v.gpa.toNat ≤ gpa.toNat ∧ gpa.toNat + len.toNat ≤ v.gpa.toNat + v.size.toNat ∧
    hva = v.hva + (gpa - v.gpa)

/-- What a message is for the table: a new one, one region more, or all that are equal to one less. -/
def tableAfter (rs : List VuDevRegion) (m : VhostUserMsg) (x : Answer) : List VuDevRegion :=
  match m.request.toInt with
  | 5 => (List.range m.nregions).map fun i => mappedRegion (m.memoryRegion i) ((x.mmap i).getD 0)
  | 37 => rs ++ [mappedRegion m.memregRegion ((x.mmap 0).getD 0)]
  | 38 => rs.filter fun r => !regEqual r m.memregRegion
  | _ => rs

def Iteration.tableAfter (x : Iteration) (rs : List VuDevRegion) : List VuDevRegion :=
  if x.dispatches then
    match vuMessageReadDefault x.packet with
    | .ok m => Vhost.tableAfter rs m x.answer
    | .error _ => rs
  else rs

end Vlog.Vhost
