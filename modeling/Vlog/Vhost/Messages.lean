import Vlog.Lib.Memory
import Vlog.Lib.Ownership
import Vlog.Vhost.Queue
import Vlog.Vhost.Watch

/-!
# Messages and state of the vhost-user device (`vhost/libvhost-user.h`)

The messages that QEMU sends, the state that they change, and what the code asks of the system while it
handles them. Of the payload, a union, a message has the bytes that were read; what lies behind them
is zero, as are the descriptors behind those received.
-/

namespace Vlog.Vhost

open Vlog.Lib

/-! ## Constants -/

def vhostMemoryBaselineNregions : Nat := 8
def vhostUserMaxRamSlots : Nat := 32

/-- `sizeof(vmsg->payload)`, that of `VhostUserConfig` rounded up to the alignment of the union. -/
def payloadSize : Nat := 272

/-- `VHOST_USER_MEM_REG_SIZE` -/
def memRegSize : UInt32 := 32

def vringIdxMask : UInt64 := 0xff
def vringNofdMask : UInt64 := 0x100

def versionMask : UInt32 := 0x3
def userVersion : UInt32 := 1
def replyMask : UInt32 := 0x4
def needReplyMask : UInt32 := 0x8

def virtioFNotifyOnEmpty : UInt64 := 24
def vhostFLogAll : UInt64 := 26
def virtioRingFIndirectDesc : UInt64 := 28
def virtioRingFEventIdx : UInt64 := 29
def vhostUserFProtocolFeatures : UInt64 := 30
def virtioFVersion1 : UInt64 := 32

def protocolFMq : UInt64 := 0
def protocolFLogShmfd : UInt64 := 1
def protocolFReplyAck : UInt64 := 3
def protocolFBackendReq : UInt64 := 5
def protocolFPagefault : UInt64 := 8
def protocolFBackendSendFd : UInt64 := 10
def protocolFHostNotifier : UInt64 := 11
def protocolFInflightShmfd : UInt64 := 12
def protocolFInbandNotifications : UInt64 := 14
def protocolFConfigureMemSlots : UInt64 := 15

/-- `1ULL << fbit` -/
def bit (fbit : UInt64) : UInt64 := 1 <<< fbit

def hasFeature (features fbit : UInt64) : Bool := features &&& bit fbit ≠ 0

/-! ## Messages -/

/-- `VhostUserMsg`. `fds` are the descriptors received, `fd_num` of them. -/
structure VhostUserMsg where
  request : Int32
  flags : UInt32
  size : UInt32
  payload : Memory
  fds : List Int

def VhostUserMsg.u32 (m : VhostUserMsg) (at' : Nat) : UInt32 := UInt32.ofNat (m.payload.load at' 4)

def VhostUserMsg.u64At (m : VhostUserMsg) (at' : Nat) : UInt64 := UInt64.ofNat (m.payload.load at' 8)

/-- `payload.u64` -/
def VhostUserMsg.u64 (m : VhostUserMsg) : UInt64 := m.u64At 0

/-- `payload.state.index` and `payload.state.num` -/
def VhostUserMsg.stateIndex (m : VhostUserMsg) : Nat := (m.u32 0).toNat
def VhostUserMsg.stateNum (m : VhostUserMsg) : UInt32 := m.u32 4

/-- `fds[i]` -/
def VhostUserMsg.fd (m : VhostUserMsg) (i : Nat) : Int := m.fds.getD i 0

/-- `payload.u64 & VHOST_USER_VRING_IDX_MASK` -/
def VhostUserMsg.vringIndex (m : VhostUserMsg) : Nat := (m.u64 &&& vringIdxMask).toNat

def VhostUserMsg.nofd (m : VhostUserMsg) : Bool := m.u64 &&& vringNofdMask ≠ 0

/-- `nofd ? -1 : vmsg->fds[0]` -/
def VhostUserMsg.newFd (m : VhostUserMsg) : Int := if m.nofd then -1 else m.fd 0

/-- `struct vhost_vring_addr` without its flags and the address of the log, which nothing looks at. -/
structure VringAddr where
  descUserAddr : UInt64
  usedUserAddr : UInt64
  availUserAddr : UInt64
  deriving DecidableEq

def VhostUserMsg.vringAddr (m : VhostUserMsg) : VringAddr :=
  { descUserAddr := m.u64At 8, usedUserAddr := m.u64At 16, availUserAddr := m.u64At 24 }

structure VhostUserMemoryRegion where
  guestPhysAddr : UInt64
  memorySize : UInt64
  userspaceAddr : UInt64
  mmapOffset : UInt64
  deriving DecidableEq

def VhostUserMsg.region (m : VhostUserMsg) (at' : Nat) : VhostUserMemoryRegion :=
  { guestPhysAddr := m.u64At at', memorySize := m.u64At (at' + 8), userspaceAddr := m.u64At (at' + 16)
    mmapOffset := m.u64At (at' + 24) }

/-- `payload.memory.nregions` and `payload.memory.regions[i]` -/
def VhostUserMsg.nregions (m : VhostUserMsg) : Nat := (m.u32 0).toNat
def VhostUserMsg.memoryRegion (m : VhostUserMsg) (i : Nat) : VhostUserMemoryRegion :=
  m.region (8 + 32 * i)

/-- `payload.memreg.region`, behind its padding -/
def VhostUserMsg.memregRegion (m : VhostUserMsg) : VhostUserMemoryRegion := m.region 8

def VhostUserMsg.setU64 (m : VhostUserMsg) (val : UInt64) : VhostUserMsg :=
  { m with payload := m.payload.store 0 (Memory.leBytes 8 val.toNat) }

/-- `vmsg_set_reply_u64` -/
def vmsgSetReplyU64 (m : VhostUserMsg) (val : UInt64) : VhostUserMsg :=
  { m.setU64 val with flags := 0, size := 8, fds := [] }

/-! ## The device -/

structure VuDevRegion where
  gpa : UInt64
  size : UInt64
  qva : UInt64
  mmapOffset : UInt64
  mmapAddr : UInt64
  deriving DecidableEq

/-- `VuVirtq`; the only handler there is is `tx_kick`. The fields that only the library's own queue
functions use are not in the model. -/
structure VuQueue where
  vuq : VuVirtq
  vra : VringAddr
  callFd : Int
  kickFd : Int
  errFd : Int
  started : Bool
  handler : Bool
  enable : UInt32
  deriving DecidableEq

/-- `VuDev`, with `g_features` of the backend. `regions` are the entries `regions[0..nregions)`. -/
structure VuDev where
  maxQueues : Nat
  vq : Nat → VuQueue
  regions : List VuDevRegion
  logCallFd : Int
  backendFd : Int
  logTable : UInt64
  logSize : UInt64
  features : UInt64
  protocolFeatures : UInt64
  gFeatures : UInt64

def vqStart : VuQueue :=
  { vuq := { vring := { num := 0, desc := 0, avail := 0, used := 0 }, lastAvailIdx := 0 }
    vra := { descUserAddr := 0, usedUserAddr := 0, availUserAddr := 0 }
    callFd := -1, kickFd := -1, errFd := -1, started := false, handler := false, enable := 0 }

/-- `vu_init` -/
def vuInit (maxQueues : Nat) : VuDev :=
  { maxQueues := maxQueues, vq := fun _ => vqStart, regions := [], logCallFd := -1, backendFd := -1
    logTable := 0, logSize := 0, features := 0, protocolFeatures := 0, gFeatures := 0 }

def VuDev.setVq (d : VuDev) (i : Nat) (q : VuQueue) : VuDev :=
  { d with vq := Function.update d.vq i q }

/-! ## What is asked of the system -/

/-- How the process ends, or comes to do what C leaves undefined. `leftOut` are the messages of the
postcopy and of the inflight extension, which are not in the model: without them `postcopy_listening` stays
false, and no queue has an inflight buffer. -/
inductive Halt
  | exit (status : Nat)
  | abort
  | undefined
  | leftOut
  deriving DecidableEq

/-- `drain` is `eventfd_read`, `signal` is `eventfd_write`, and `txKick` is the call of `tx_kick`. -/
inductive Effect
  | received (fd : Int)
  | close (fd : Int)
  | mmap (addr len : UInt64)
  | munmap (addr len : UInt64)
  | watch (op : WatchOp Unit Nat)
  | signal (fd : Int)
  | drain (fd : Int)
  | txKick (i : Nat)
  deriving DecidableEq

/-- `MAP_FAILED` -/
def mapFailed : UInt64 := 0xffffffffffffffff

/-- The answers of the system while one message or one kick is handled: to `mmap`, `none` where it
fails, to `eventfd_write` and `eventfd_read`, to the test for userfaultfd and to the last call of the
reply; and the number of chains and `last_avail` that `tx_kick` comes to where its guard is passed. -/
structure Answer where
  mmap : Nat → Option UInt64
  signal : Bool
  drain : Bool
  userfault : Bool
  replied : Bool
  handled : Nat × UInt16

end Vlog.Vhost
