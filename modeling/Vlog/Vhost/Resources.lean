import Vlog.Vhost.Loop

/-!
# What the device holds

The descriptors and mappings that the device's state names, and the effects as acts on them. `live`,
the descriptors and mappings of the process, and `stray`, the descriptors that nothing in the state names
any more, are not in the code.
-/

namespace Vlog.Vhost

open Vlog.Lib

inductive Resource
  | fd (fd : Int)
  | map (addr len : UInt64)
  deriving DecidableEq

/-- `munmap` of `MAP_FAILED`, which is not the address of a page, is refused and does nothing. -/
def Effect.acts : Effect → List (Act Resource)
  | .received fd => [.acquire (.fd fd)]
  | .close fd => [.release (.fd fd)]
  | .mmap addr len => [.acquire (.map addr len)]
  | .munmap addr len => if addr = mapFailed then [] else [.release (.map addr len)]
  | .signal fd | .drain fd => [.use (.fd fd)]
  | .watch _ | .txKick _ => []

def acts (es : List Effect) : List (Act Resource) := es.flatMap Effect.acts

/-! ## Held by the state -/

def heldFd (fd : Int) : Multiset Resource := if fd = -1 then 0 else {.fd fd}

def VuQueue.held (q : VuQueue) : Multiset Resource :=
  heldFd q.callFd + heldFd q.kickFd + heldFd q.errFd

def heldRegions (rs : List VuDevRegion) : Multiset Resource :=
  ((rs.map fun r => .map r.mmapAddr r.mmapLen : List Resource) : Multiset Resource)

/-- Where `mmap` has failed, there is no log, though `log_table` is set. -/
def VuDev.heldLog (d : VuDev) : Multiset Resource :=
  if d.logTable = 0 ∨ d.logTable = mapFailed then 0 else {.map d.logTable d.logSize}

def VuDev.heldQueues (d : VuDev) : Multiset Resource :=
  ∑ i ∈ Finset.range d.maxQueues, (d.vq i).held

def VuDev.held (d : VuDev) : Multiset Resource :=
  d.heldQueues + heldRegions d.regions + heldFd d.logCallFd + heldFd d.backendFd + d.heldLog

def heldFds (fds : List Int) : Multiset Resource := ((fds.map .fd : List Resource) : Multiset Resource)

/-! ## Messages -/

/-- The descriptors of a message that its handler neither keeps nor closes. -/
def VhostUserMsg.stray (m : VhostUserMsg) : List Int :=
  match m.request.toInt with
  | 6 | 7 | 12 | 13 | 14 | 21 | 37 | 38 => []
  | 5 => m.fds.drop m.nregions
  | _ => m.fds

/-- The messages of the postcopy and of the inflight extension -/
def VhostUserMsg.Extended (m : VhostUserMsg) : Prop := m.request.toInt ∈ [28, 29, 30, 31, 32]

/-- A table names no more regions than descriptors came with it, which is left unchecked. -/
structure Proper (m : VhostUserMsg) : Prop where
  regions : m.request.toInt = 5 → m.nregions ≤ m.fds.length
  plain : ¬ m.Extended

/-- No mapping is at the addresses that stand for none. -/
def Answer.MapsSomewhere (x : Answer) : Prop :=
  ∀ i addr, x.mmap i = some addr → addr ≠ 0 ∧ addr ≠ mapFailed

end Vlog.Vhost
