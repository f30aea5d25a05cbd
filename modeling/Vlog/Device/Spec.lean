import Vlog.Device.Abi
import Vlog.Emulator.Logstore
import Vlog.Lib.Memory

/-!
# The contract of the logging device (`SPEC.md`, Part II)

The register map, STATUS and the commands, as rules that a device follows or not. `SpecDevice` is a
device that follows them.
-/

namespace Vlog.Device

open Vlog.Lib Vlog.Libc
open Vlog.Emulator (Record)

/-! ## Register map (§2) -/

def VlogDevice.read (r : VlogDevice) (off : Nat) : UInt32 :=
  if off = regId then vlogMagic
  else if off = regVersion then vlogVersion
  else if off = regStatus then r.status
  else if off = regMsgLo then r.msgAddrLo
  else if off = regMsgHi then r.msgAddrHi
  else if off = regLen then r.len
  else if off = regLevel then r.level
  else if off = regSeq then r.seq
  else 0

/-- A write to an offset other than CMD. -/
def VlogDevice.write (r : VlogDevice) (off : Nat) (v : UInt32) : VlogDevice :=
  if off = regMsgLo then { r with msgAddrLo := v }
  else if off = regMsgHi then { r with msgAddrHi := v }
  else if off = regLen then { r with len := v }
  else if off = regLevel then { r with level := v }
  else r

/-! ## STATUS (§3) -/

/-- The bits of STATUS that have a meaning. -/
def statusFields : UInt32 := statusReady ||| statusError ||| ((0xff : UInt32) <<< statusErrShift)

/-- STATUS after a command that failed with `code`, or after one that succeeded for `errNone`. -/
def statusWord (code : UInt8) : UInt32 :=
  if code = errNone then statusReady
  else statusReady ||| statusError ||| (code.toUInt32 <<< statusErrShift)

/-! ## Commands (§4) -/

/-- `sizeof(struct vlog_stats)` -/
def statsSize : Nat := 8

abbrev InRam (gpa : UInt64) (len : Nat) : Prop :=
  ramBase ≤ gpa.toNat ∧ gpa.toNat + len ≤ ramBase + ramSize

def logFaults (msg : UInt64) (len : UInt32) : List UInt8 :=
  (if vlogMaxMsg < len then [errBadLen] else []) ++
  (if 0 < len ∧ ¬ InRam msg len.toNat then [errBadAddr] else [])

def statFaults (msg : UInt64) (len : UInt32) : List UInt8 :=
  (if len.toNat < statsSize then [errBadLen] else []) ++
  (if ¬ InRam msg statsSize then [errBadAddr] else [])

/-- The errors whose conditions hold, in the order in which they are listed. -/
def faults (cmd : UInt32) (r : VlogDevice) : List UInt8 :=
  if cmd = cmdNop ∨ cmd = cmdFlush then []
  else if cmd = cmdLog then logFaults (msgAddr r) r.len
  else if cmd = cmdStat then statFaults (msgAddr r) r.len
  else [errBadCmd]

/-- What decides between two errors whose conditions both hold: the order of the list, or the device. -/
inductive Priority
  | listed
  | any

def Priority.codes : Priority → List UInt8 → List UInt8
  | .listed, codes => codes.take 1
  | .any, codes => codes

/-- The codes that a command may end with, `errNone` for success. -/
def outcomes (p : Priority) (cmd : UInt32) (r : VlogDevice) : List UInt8 :=
  if faults cmd r = [] then [errNone] else p.codes (faults cmd r)

/-- What a device can see and change: its registers, the log file and the guest's memory. -/
structure World where
  regs : VlogDevice
  log : List Byte
  mem : Memory

/-- A command that succeeds. -/
def effect (cmd : UInt32) (w : World) : World :=
  let r := w.regs
  if cmd = cmdLog then
    let msg := w.mem.slice (msgAddr r).toNat r.len.toNat
    { w with
      regs := { r with seq := r.seq + 1, bytes := r.bytes + r.len }
      log := w.log ++ Record.text { seq := r.seq, level := r.level, bytes := msg } }
  else if cmd = cmdStat then
    let stats := Memory.leBytes 4 r.seq.toNat ++ Memory.leBytes 4 r.bytes.toNat
    { w with mem := w.mem.store (msgAddr r).toNat stats }
  else w

def perform (cmd : UInt32) (code : UInt8) (w : World) : World :=
  if code = errNone then effect cmd w else w

def World.report (w : World) (code : UInt8) : World :=
  { w with regs := { w.regs with status := statusWord code } }

/-- The reserved bits of STATUS left out. -/
def World.fields (w : World) : World :=
  { w with regs := { w.regs with status := w.regs.status &&& statusFields } }

def Executes (p : Priority) (cmd : UInt32) (w w' : World) : Prop :=
  ∃ code ∈ outcomes p cmd w.regs, w'.fields = (perform cmd code w).report code

/-! ## Devices -/

/-- An implementation of the two MMIO handlers, and what the log file holds in each of its states. -/
structure MmioDevice where
  State : Type
  init : State
  mmioRead : State → Nat → UInt32 × State
  mmioWrite : State → Memory → Nat → UInt32 → State × Memory
  log : State → List Byte

structure SpecDevice (p : Priority) extends MmioDevice where
  view : State → VlogDevice
  view_init : view init = vlogDeviceInit
  log_init : log init = []
  reads : ∀ s off, (mmioRead s off).1 = (view s).read off ∧
    view (mmioRead s off).2 = view s ∧ log (mmioRead s off).2 = log s
  writes : ∀ s mem off v, off ≠ regCmd →
    view (mmioWrite s mem off v).1 = (view s).write off v ∧
      log (mmioWrite s mem off v).1 = log s ∧ (mmioWrite s mem off v).2 = mem
  executes : ∀ s mem cmd, Executes p cmd { regs := view s, log := log s, mem := mem }
    { regs := view (mmioWrite s mem regCmd cmd).1, log := log (mmioWrite s mem regCmd cmd).1
      mem := (mmioWrite s mem regCmd cmd).2 }

end Vlog.Device
