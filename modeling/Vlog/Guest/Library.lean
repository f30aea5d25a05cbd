import Vlog.Device.Spec

/-!
# The guest library (`guest/vlog.c`)

A guest program runs over a device, the guest's memory and the serial console. A register is named by
its offset from `DEV_BASE`.
-/

namespace Vlog.Guest

open Vlog.Lib Vlog.Libc Vlog.Device

structure Machine (d : MmioDevice) where
  dev : d.State
  mem : Memory
  /-- What the console has printed. -/
  out : List Byte

abbrev GuestM (d : MmioDevice) := StateM (Machine d)

variable {d : MmioDevice}

def mmioW32 (off : Nat) (val : UInt32) : GuestM d Unit :=
  modify fun m =>
    let (dev, mem) := d.mmioWrite m.dev m.mem off val
    { m with dev := dev, mem := mem }

def mmioR32 (off : Nat) : GuestM d UInt32 :=
  modifyGet fun m =>
    let (val, dev) := d.mmioRead m.dev off
    (val, { m with dev := dev })

/-! ## Memory -/

def load32 (a : UInt64) : GuestM d UInt32 := do return UInt32.ofNat ((← get).mem.load a.toNat 4)

def load64 (a : UInt64) : GuestM d UInt64 := do return UInt64.ofNat ((← get).mem.load a.toNat 8)

def store32 (a : UInt64) (val : UInt32) : GuestM d Unit :=
  modify fun m => { m with mem := m.mem.store a.toNat (Memory.leBytes 4 val.toNat) }

/-! ## Console -/

def putc (c : Byte) : GuestM d Unit := modify fun m => { m with out := m.out ++ [c] }

def puts : List Byte → GuestM d Unit
  | [] => return ()
  | c :: s => do
      putc c
      puts s

def hexDigits : List Byte := lit "0123456789abcdef"

def puthex (v : UInt32) : GuestM d Unit := do
  putc (UInt8.ofNat '0'.toNat)
  putc (UInt8.ofNat 'x'.toNat)
  puts (([28, 24, 20, 16, 12, 8, 4, 0] : List UInt32).map fun i =>
    hexDigits.getD ((v >>> i) &&& 0xf).toNat 0)

/-! ## Logging device -/

def vlogId : GuestM d UInt32 := mmioR32 regId

def vlogStatus : GuestM d UInt32 := mmioR32 regStatus

def vlogSeq : GuestM d UInt32 := mmioR32 regSeq

def vlogWrite (level : UInt32) (msg : UInt64) (len : UInt32) : GuestM d UInt32 := do
  mmioW32 regMsgLo msg.toUInt32
  mmioW32 regMsgHi (msg >>> 32).toUInt32
  mmioW32 regLen len
  mmioW32 regLevel level
  mmioW32 regCmd cmdLog
  return statusResult (← mmioR32 regStatus)

def vlogStat (addr : UInt64) (len : UInt32) : GuestM d UInt32 := do
  mmioW32 regMsgLo (addr &&& 0xffffffff).toUInt32
  mmioW32 regMsgHi (addr >>> 32).toUInt32
  mmioW32 regLen len
  mmioW32 regCmd cmdStat
  return statusResult (← mmioR32 regStatus)

end Vlog.Guest
