import Vlog.Lib.Memory

/-!
# The queue that the handler is given (`vhost/backend.c`)

`tx_kick` builds `struct virtq` from the queue of the vhost-user library. The library keeps the size of a
ring in 32 bits, `struct virtq` in 16.
-/

namespace Vlog.Vhost

open Vlog.Lib

/-- `VuRing`; the three rings are addresses of the host, 0 for `NULL`. -/
structure VuRing where
  num : UInt32
  desc : UInt64
  avail : UInt64
  used : UInt64
  deriving DecidableEq

structure VuVirtq where
  vring : VuRing
  lastAvailIdx : UInt16
  deriving DecidableEq

/-- `vu_set_vring_num_exec` on the queue that the message names. -/
def vuSetVringNumExec (vuq : VuVirtq) (num : UInt32) : VuVirtq :=
  { vuq with vring := { vuq.vring with num := num } }

structure Virtq where
  desc : UInt64
  avail : UInt64
  used : UInt64
  num : UInt16
  lastAvail : UInt16
  deriving DecidableEq

/-- The `struct virtq` of `tx_kick`, where its guard is passed. -/
def txView (vuq : VuVirtq) : Option Virtq :=
  if vuq.vring.desc = 0 ∨ vuq.vring.avail = 0 ∨ vuq.vring.used = 0 ∨ vuq.vring.num = 0 then none
  else
    some
      { desc := vuq.vring.desc
        avail := vuq.vring.avail
        used := vuq.vring.used
        num := vuq.vring.num.toUInt16
        lastAvail := vuq.lastAvailIdx }

/-- `i % vq->num`, which is undefined for a ring of size 0. -/
def Virtq.slot (vq : Virtq) (i : UInt16) : Option UInt16 := if vq.num = 0 then none else some (i % vq.num)

/-- `sizeof(struct vring_used_elem)` -/
def usedElemSize : Nat := 8

/-- `&used->ring[k]`, behind `flags` and `idx` -/
def usedElem (used : UInt64) (k : Nat) : Nat := used.toNat + 4 + usedElemSize * k

/-- `*avail_event = vq.last_avail` with the value `x` -/
def Virtq.storeAvailEvent (vq : Virtq) (x : UInt16) (mem : Memory) : Memory :=
  mem.store (usedElem vq.used vq.num.toNat) (Memory.leBytes 2 x.toNat)

/-! ## What the handler may rely on -/

/-- Every slot of the ring is the one of some index. -/
def Virtq.Covers (vq : Virtq) (n : Nat) : Prop := ∀ k < n, ∃ i r, vq.slot i = some r ∧ r.toNat = k

/-- Whatever is stored as `avail_event`, the entries of the used ring stay. -/
def Virtq.KeepsUsed (vq : Virtq) (n : Nat) : Prop :=
  ∀ mem x, ∀ k < n, (vq.storeAvailEvent x mem).slice (usedElem vq.used k) usedElemSize =
    mem.slice (usedElem vq.used k) usedElemSize

structure Virtq.Faithful (vq : Virtq) (ring : VuRing) : Prop where
  num : vq.num.toNat = ring.num.toNat
  nonzero : vq.num ≠ 0
  covers : vq.Covers ring.num.toNat
  keepsUsed : vq.KeepsUsed ring.num.toNat

end Vlog.Vhost
