import Vlog.Vhost.Messages

/-!
# The vhost-user device (`vhost/libvhost-user.c`, `vhost/backend.c`)

One function for each request, under the name that the source has for its handler. `panic_cb` of the
backend ends the process, so nothing behind a `vu_panic` runs.
-/

namespace Vlog.Vhost

open Vlog.Lib

/-- What is left when a handler returns: the message as it then stands, and whether it is sent back. -/
structure Handling where
  dev : VuDev
  msg : VhostUserMsg
  effects : List Effect
  reply : Bool

abbrev Handler := VuDev → VhostUserMsg → Answer → Except Halt Handling

def panic : Except Halt Handling := .error (.exit 1)

def Handling.quiet (d : VuDev) (m : VhostUserMsg) : Handling :=
  { dev := d, msg := m, effects := [], reply := false }

def Handling.answered (d : VuDev) (m : VhostUserMsg) : Handling :=
  { dev := d, msg := m, effects := [], reply := true }

/-! ## Descriptors and addresses -/

def vmsgCloseFds (m : VhostUserMsg) : List Effect := m.fds.map .close

/-- `if (fd != -1) close(fd);` -/
def closeIf (fd : Int) : List Effect := if fd ≠ -1 then [.close fd] else []

def VuDevRegion.mmapLen (r : VuDevRegion) : UInt64 := r.size + r.mmapOffset

/-- `if (ma) munmap(ma, r->size + r->mmap_offset);` -/
def VuDevRegion.unmap (r : VuDevRegion) : List Effect :=
  if r.mmapAddr ≠ 0 then [.munmap r.mmapAddr r.mmapLen] else []

def VuDevRegion.covers (r : VuDevRegion) (qemuAddr : UInt64) : Bool :=
  r.qva ≤ qemuAddr ∧ qemuAddr < r.qva + r.size

/-- `qva_to_va`, 0 for `NULL` -/
def qvaToVa (regions : List VuDevRegion) (qemuAddr : UInt64) : UInt64 :=
  match regions.find? (·.covers qemuAddr) with
  | some r => qemuAddr - r.qva + r.mmapAddr + r.mmapOffset
  | none => 0

/-- `map_ring`, with what it stores and whether all three addresses are mapped. -/
def mapRing (regions : List VuDevRegion) (q : VuQueue) : VuQueue × Bool :=
  let ring :=
    { q.vuq.vring with
      desc := qvaToVa regions q.vra.descUserAddr
      used := qvaToVa regions q.vra.usedUserAddr
      avail := qvaToVa regions q.vra.availUserAddr }
  ({ q with vuq := { q.vuq with vring := ring } }, ring.desc ≠ 0 ∧ ring.used ≠ 0 ∧ ring.avail ≠ 0)

/-- `for (i = 0; i < dev->max_queues; i++)`, `map_ring` for the rings that are set up. -/
def remapRings (regions : List VuDevRegion) (d : VuDev) : Nat → Option VuDev
  | 0 => some d
  | n + 1 => do
      let d ← remapRings regions d n
      if (d.vq n).vuq.vring.desc ≠ 0 then
        let r := mapRing regions (d.vq n)
        if r.2 then some (d.setVq n r.1) else none
      else some d

/-- `struct virtq_mem_region` -/
structure VirtqMemRegion where
  gpa : UInt64
  size : UInt64
  hva : UInt64
  deriving DecidableEq

def vuGetFeaturesExec : Handler := fun d m _ =>
  let features := bit virtioFNotifyOnEmpty ||| bit virtioRingFIndirectDesc |||
    bit virtioRingFEventIdx ||| bit virtioFVersion1 ||| bit vhostFLogAll |||
    bit vhostUserFProtocolFeatures
  .ok (.answered d { m.setU64 (features ||| bit virtioFVersion1) with size := 8, fds := [] })

def vuSetEnableAllRings (d : VuDev) (enabled : UInt32) : VuDev :=
  { d with vq := fun i => if i < d.maxQueues then { d.vq i with enable := enabled } else d.vq i }

/-- The test for the protocol features masks with the number of the bit. -/
def vuSetFeaturesExec : Handler := fun d m _ =>
  let d := { d with features := m.u64 }
  if hasFeature d.features virtioFVersion1 then
    let d := if d.features &&& vhostUserFProtocolFeatures = 0 then vuSetEnableAllRings d 1 else d
    .ok (.quiet { d with gFeatures := d.features } m)
  else panic

def vuSetOwnerExec : Handler := fun d m _ => .ok (.quiet d m)

def vuResetDeviceExec : Handler := fun d m _ => .ok (.quiet (vuSetEnableAllRings d 0) m)

def vuGetProtocolFeaturesExec : Handler := fun d m x =>
  let features := bit protocolFMq ||| bit protocolFLogShmfd ||| bit protocolFBackendReq |||
    bit protocolFHostNotifier ||| bit protocolFBackendSendFd ||| bit protocolFReplyAck |||
    bit protocolFConfigureMemSlots
  let features := if x.userfault then features ||| bit protocolFPagefault else features
  .ok (.answered d (vmsgSetReplyU64 m features))

def vuSetProtocolFeaturesExec : Handler := fun d m _ =>
  let d := { d with protocolFeatures := m.u64 }
  if hasFeature d.protocolFeatures protocolFInbandNotifications ∧
      (¬ hasFeature d.protocolFeatures protocolFBackendReq ∨
        ¬ hasFeature d.protocolFeatures protocolFReplyAck) then panic
  else .ok (.quiet d m)

def vuGetQueueNumExec : Handler := fun d m _ =>
  .ok (.answered d (vmsgSetReplyU64 m (UInt64.ofNat d.maxQueues)))

def vuHandleGetMaxMemslots : Handler := fun d m _ =>
  .ok (.answered d (vmsgSetReplyU64 m (UInt64.ofNat vhostUserMaxRamSlots)))

/-! ## Memory -/

def mappedRegion (r : VhostUserMemoryRegion) (addr : UInt64) : VuDevRegion :=
  { gpa := r.guestPhysAddr, size := r.memorySize, qva := r.userspaceAddr, mmapOffset := r.mmapOffset
    mmapAddr := addr }

/-- The loop of `vu_set_mem_table_exec` over `k` regions from region `i` on; `none` where `mmap` fails. -/
def mapRegions (m : VhostUserMsg) (x : Answer) (i : Nat) : Nat → Option (List VuDevRegion × List Effect)
  | 0 => some ([], [])
  | k + 1 => do
      let addr ← x.mmap i
      let r := mappedRegion (m.memoryRegion i) addr
      let t ← mapRegions m x (i + 1) k
      some (r :: t.1, .mmap r.mmapAddr r.mmapLen :: .close (m.fd i) :: t.2)

/-- More regions than a message holds are read from behind it. `postcopy_listening` is false. -/
def vuSetMemTableExec : Handler := fun d m x =>
  if vhostMemoryBaselineNregions < m.nregions then .error .undefined
  else match mapRegions m x 0 m.nregions with
    | none => panic
    | some t =>
        match remapRings t.1 { d with regions := t.1 } d.maxQueues with
        | none => panic
        | some d' =>
            .ok { dev := d', msg := m, effects := d.regions.flatMap VuDevRegion.unmap ++ t.2
                  reply := false }

/-- The rings are remapped before the new region is counted. `postcopy_listening` is false. -/
def vuAddMemReg : Handler := fun d m x =>
  if m.fds.length ≠ 1 ∨ m.size < memRegSize ∨ d.regions.length = vhostUserMaxRamSlots then panic
  else match x.mmap 0 with
    | none => panic
    | some addr =>
        let r := mappedRegion m.memregRegion addr
        match remapRings d.regions d d.maxQueues with
        | none => panic
        | some d' =>
            .ok { dev := { d' with regions := d.regions ++ [r] }, msg := m
                  effects := [.mmap r.mmapAddr r.mmapLen, .close (m.fd 0)], reply := false }

def regEqual (r : VuDevRegion) (m : VhostUserMemoryRegion) : Bool :=
  r.gpa = m.guestPhysAddr ∧ r.qva = m.userspaceAddr ∧ r.size = m.memorySize

/-- The loop of `vu_rem_mem_reg` from index `i` on. The entries behind a region that is removed move up,
and the index stays. -/
def removeRegions (m : VhostUserMemoryRegion) (i : Nat) (rs : List VuDevRegion) :
    List VuDevRegion × List Effect :=
  if h : i < rs.length then
    if regEqual rs[i] m then
      let t := removeRegions m i (rs.eraseIdx i)
      (t.1, rs[i].unmap ++ t.2)
    else removeRegions m (i + 1) rs
  else (rs, [])
termination_by rs.length - i
decreasing_by
  · rw [List.length_eraseIdx_of_lt h]
    omega
  · omega

def vuRemMemReg : Handler := fun d m _ =>
  if 1 < m.fds.length ∨ m.size < memRegSize then panic
  else
    let t := removeRegions m.memregRegion 0 d.regions
    if t.1.length = d.regions.length then panic
    else
      .ok { dev := { d with regions := t.1 }, msg := m, effects := t.2 ++ vmsgCloseFds m
            reply := false }

/-- Where `mmap` fails, what it returned is kept all the same. -/
def vuSetLogBaseExec : Handler := fun d m x =>
  if m.fds.length ≠ 1 ∨ m.size ≠ 16 then panic
  else
    let size := m.u64At 0
    let table := (x.mmap 0).getD mapFailed
    let mapped := if (x.mmap 0).isSome then [.mmap table size] else []
    let unmapped := if d.logTable ≠ 0 then [.munmap d.logTable d.logSize] else []
    .ok { dev := { d with logTable := table, logSize := size }
          msg := { m with size := 8, fds := [] }
          effects := mapped ++ .close (m.fd 0) :: unmapped
          reply := true }

def vuSetLogFdExec : Handler := fun d m _ =>
  if m.fds.length ≠ 1 then panic
  else
    .ok { dev := { d with logCallFd := m.fd 0 }, msg := m, effects := closeIf d.logCallFd
          reply := false }

/-! ## Rings -/

/-- A queue that the code does not check the index of. -/
def withQueue (d : VuDev) (index : Nat) (k : VuQueue → Except Halt Handling) : Except Halt Handling :=
  if index < d.maxQueues then k (d.vq index) else .error .undefined

def vuSetVringNum : Handler := fun d m _ =>
  withQueue d m.stateIndex fun q =>
    .ok (.quiet (d.setVq m.stateIndex { q with vuq := vuSetVringNumExec q.vuq m.stateNum }) m)

def vuSetVringAddrExec : Handler := fun d m _ =>
  withQueue d m.stateIndex fun q =>
    let r := mapRing d.regions { q with vra := m.vringAddr }
    if r.2 then .ok (.quiet (d.setVq m.stateIndex r.1) m) else panic

def vuSetVringBaseExec : Handler := fun d m _ =>
  withQueue d m.stateIndex fun q =>
    .ok (.quiet (d.setVq m.stateIndex
      { q with vuq := { q.vuq with lastAvailIdx := m.stateNum.toUInt16 } }) m)

def vqTx : Nat := 1

/-- `queue_set_started` of the backend, through `vu_set_queue_handler`. -/
def queueSetStarted (i : Nat) (q : VuQueue) (started : Bool) : VuQueue × List Effect :=
  if i = vqTx then
    ({ q with handler := started },
      if 0 ≤ q.kickFd then
        [.watch (if started then .set q.kickFd () i else .remove q.kickFd)]
      else [])
  else (q, [])

/-- `if (kick_fd != -1) { remove_watch; close; kick_fd = -1; }` -/
def dropKick (q : VuQueue) : VuQueue × List Effect :=
  if q.kickFd ≠ -1 then
    ({ q with kickFd := -1 }, [.watch (.remove q.kickFd), .close q.kickFd])
  else (q, [])

def vuGetVringBaseExec : Handler := fun d m _ =>
  withQueue d m.stateIndex fun q =>
    let m' : VhostUserMsg :=
      { m with
        payload := m.payload.store 4 (Memory.leBytes 4 q.vuq.lastAvailIdx.toNat)
        size := 8 }
    let s := queueSetStarted m.stateIndex { q with started := false } false
    let k := dropKick { s.1 with callFd := -1 }
    .ok { dev := d.setVq m.stateIndex k.1, msg := m'
          effects := s.2 ++ closeIf q.callFd ++ k.2, reply := true }

/-- `vu_check_queue_msg_file`: the descriptors closed where it returns true. -/
def vuCheckQueueMsgFile (d : VuDev) (m : VhostUserMsg) : Option (List Effect) :=
  if d.maxQueues ≤ m.vringIndex then none
  else if m.nofd then some (vmsgCloseFds m)
  else if m.fds.length ≠ 1 then none
  else some []

/-- Without an inflight buffer, which only the messages left out set up, `vu_check_queue_inflights`
fails where the feature is on. -/
def vuSetVringKickExec : Handler := fun d m _ =>
  match vuCheckQueueMsgFile d m with
  | none => panic
  | some closed =>
      let i := m.vringIndex
      let k := dropKick (d.vq i)
      let q := { k.1 with kickFd := m.newFd, started := true }
      let s := queueSetStarted i q true
      let watch := if s.1.kickFd ≠ -1 ∧ s.1.handler then [.watch (.set s.1.kickFd () i)] else []
      if hasFeature d.protocolFeatures protocolFInflightShmfd then panic
      else
        .ok { dev := d.setVq i s.1, msg := m, effects := closed ++ k.2 ++ s.2 ++ watch
              reply := false }

/-- A failed `eventfd_write` returns -1, which is true. -/
def vuSetVringCallExec : Handler := fun d m x =>
  match vuCheckQueueMsgFile d m with
  | none => panic
  | some closed =>
      let i := m.vringIndex
      .ok { dev := d.setVq i { d.vq i with callFd := m.newFd }, msg := m
            effects := closed ++ closeIf (d.vq i).callFd ++
              if m.newFd ≠ -1 then [.signal (m.fd 0)] else []
            reply := m.newFd ≠ -1 ∧ x.signal = false }

def vuSetVringErrExec : Handler := fun d m _ =>
  match vuCheckQueueMsgFile d m with
  | none => panic
  | some closed =>
      let i := m.vringIndex
      .ok { dev := d.setVq i { d.vq i with errFd := m.newFd }, msg := m
            effects := closed ++ closeIf (d.vq i).errFd, reply := false }

def vuSetVringEnableExec : Handler := fun d m _ =>
  if d.maxQueues ≤ m.stateIndex then panic
  else
    .ok (.quiet (d.setVq m.stateIndex { d.vq m.stateIndex with enable := m.stateNum }) m)

/-- `tx_kick`: what it returns with is an answer, the handler being called through its contract. -/
def txKick (d : VuDev) (i : Nat) (x : Answer) : VuDev × List Effect :=
  match txView (d.vq i).vuq with
  | none => (d, [.txKick i])
  | some _ =>
      let q := d.vq i
      (d.setVq i { q with vuq := { q.vuq with lastAvailIdx := x.handled.2 } },
        .txKick i :: if 0 < x.handled.1 ∧ 0 ≤ q.callFd then [.signal q.callFd] else [])

def vuHandleVringKick : Handler := fun d m x =>
  let i := m.stateIndex
  if d.maxQueues ≤ i then panic
  else
    let s :=
      if (d.vq i).started then (d.vq i, []) else queueSetStarted i { d.vq i with started := true } true
    let d := d.setVq i s.1
    let t := if s.1.handler then txKick d i x else (d, [])
    .ok { dev := t.1, msg := m, effects := s.2 ++ t.2, reply := false }

/-! ## The rest -/

def vuSetBackendReqFd : Handler := fun d m _ =>
  if m.fds.length ≠ 1 then panic
  else
    .ok { dev := { d with backendFd := m.fd 0 }, msg := m, effects := closeIf d.backendFd
          reply := false }

/-- The backend has none of the hooks behind these three. -/
def vuGetConfig : Handler := fun d m _ => .ok (.answered d { m with size := 0 })

def vuSetConfig : Handler := fun d m _ => .ok (.quiet d m)

def vuGetSharedObject : Handler := fun d m _ => .ok (.answered d { m with fds := [] })

def vuProcessMessage (d : VuDev) (m : VhostUserMsg) (x : Answer) : Except Halt Handling :=
  match m.request.toInt with
  | 0 => .error (.exit 0)
  | 1 => vuGetFeaturesExec d m x
  | 2 => vuSetFeaturesExec d m x
  | 3 => vuSetOwnerExec d m x
  | 4 => vuResetDeviceExec d m x
  | 5 => vuSetMemTableExec d m x
  | 6 => vuSetLogBaseExec d m x
  | 7 => vuSetLogFdExec d m x
  | 8 => vuSetVringNum d m x
  | 9 => vuSetVringAddrExec d m x
  | 10 => vuSetVringBaseExec d m x
  | 11 => vuGetVringBaseExec d m x
  | 12 => vuSetVringKickExec d m x
  | 13 => vuSetVringCallExec d m x
  | 14 => vuSetVringErrExec d m x
  | 15 => vuGetProtocolFeaturesExec d m x
  | 16 => vuSetProtocolFeaturesExec d m x
  | 17 => vuGetQueueNumExec d m x
  | 18 => vuSetVringEnableExec d m x
  | 21 => vuSetBackendReqFd d m x
  | 24 => vuGetConfig d m x
  | 25 => vuSetConfig d m x
  | 28 | 29 | 30 | 31 | 32 => .error .leftOut
  | 35 => vuHandleVringKick d m x
  | 36 => vuHandleGetMaxMemslots d m x
  | 37 => vuAddMemReg d m x
  | 38 => vuRemMemReg d m x
  | 41 => vuGetSharedObject d m x
  | _ => panic

/-! ## The end -/

/-- The body of the loop over the queues in `vu_deinit` -/
def deinitQueue (q : VuQueue) : VuQueue × List Effect :=
  let k := dropKick { q with callFd := -1 }
  ({ k.1 with errFd := -1 }, closeIf q.callFd ++ k.2 ++ closeIf q.errFd)

/-- `if (m != MAP_FAILED) munmap(m, r->size + r->mmap_offset);` -/
def VuDevRegion.release (r : VuDevRegion) : List Effect :=
  if r.mmapAddr ≠ mapFailed then [.munmap r.mmapAddr r.mmapLen] else []

def vuCloseLog (d : VuDev) : VuDev × List Effect :=
  ({ d with logTable := 0, logCallFd := -1 },
    (if d.logTable ≠ 0 then [.munmap d.logTable d.logSize] else []) ++ closeIf d.logCallFd)

/-- `vu_deinit`, less the socket, which is not in the state. -/
def vuDeinit (d : VuDev) : VuDev × List Effect :=
  let c := vuCloseLog d
  ({ c.1 with
      regions := []
      vq := fun i => if i < d.maxQueues then (deinitQueue (d.vq i)).1 else d.vq i
      backendFd := -1 },
    d.regions.flatMap VuDevRegion.release ++
      (List.range d.maxQueues).flatMap (fun i => (deinitQueue (d.vq i)).2) ++ c.2 ++
      closeIf d.backendFd)

end Vlog.Vhost
