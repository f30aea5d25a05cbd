import Vlog.Guest.Library

/-!
# The boot-parameter blob (`tests/bootinfo.h`)

The packed header that the oracle writes and the guest reads.
-/

namespace Vlog.Guest

open Vlog.Lib Vlog.Libc Vlog.Device

def bootinfoBase : UInt64 := 0x010F0000
def bootinfoMagic : UInt32 := 0xB007B007
def bootinfoHdrBytes : Nat := 64

def scLogOne : UInt32 := 1
def scLogMany : UInt32 := 2
def scMalformed : UInt32 := 3
def scBoundary : UInt32 := 4
def scEmpty : UInt32 := 5
def scMaxlen : UInt32 := 6
def scRegs : UInt32 := 7
def scNop : UInt32 := 8
def scRecover : UInt32 := 9
def scInterleave : UInt32 := 10
def scFlush : UInt32 := 11
def scStat : UInt32 := 12

structure Bootinfo where
  magic : UInt32
  scenario : UInt32
  scratchAddr : UInt64
  scratchLen : UInt32
  level : UInt32
  count : UInt32
  arg0 : UInt32
  arg1 : UInt32
  deriving DecidableEq

def Bootinfo.packed (bi : Bootinfo) : List Byte :=
  Memory.leBytes 4 bi.magic.toNat ++ Memory.leBytes 4 bi.scenario.toNat ++
  Memory.leBytes 8 bi.scratchAddr.toNat ++ Memory.leBytes 4 bi.scratchLen.toNat ++
  Memory.leBytes 4 bi.level.toNat ++ Memory.leBytes 4 bi.count.toNat ++
  Memory.leBytes 4 bi.arg0.toNat ++ Memory.leBytes 4 bi.arg1.toNat

def readBootinfo {d : MmioDevice} (p : UInt64) : GuestM d Bootinfo := do
  return {
    magic := ← load32 p
    scenario := ← load32 (p + 4)
    scratchAddr := ← load64 (p + 8)
    scratchLen := ← load32 (p + 16)
    level := ← load32 (p + 20)
    count := ← load32 (p + 24)
    arg0 := ← load32 (p + 28)
    arg1 := ← load32 (p + 32) }

end Vlog.Guest
