import Vlog.Guest.Bootinfo

/-!
# The test guest (`tests/ag_guest.c`)

One program for each scenario code, and `main`, which chooses between them by the code in the blob.
-/

namespace Vlog.Guest

open Vlog.Lib Vlog.Libc Vlog.Device

/-- The addresses of the two `struct vlog_stats` on the guest's stack. The stack is RAM and ends below
the blob. -/
structure Frame where
  st : UInt64
  small : UInt64
  st_ram : ramBase ≤ st.toNat
  small_ram : ramBase ≤ small.toNat
  st_below : st.toNat + statsSize ≤ bootinfoBase.toNat
  small_below : small.toNat + statsSize ≤ bootinfoBase.toNat
  disjoint : st.toNat + statsSize ≤ small.toNat ∨ small.toNat + statsSize ≤ st.toNat

/-- A frame at the top of the stack. -/
def Frame.top : Frame where
  st := 0x010EFFE0
  small := 0x010EFFE8
  st_ram := by decide
  small_ram := by decide
  st_below := by decide
  small_below := by decide
  disjoint := .inl (by decide)

variable {d : MmioDevice}

def obs (key : String) (val : UInt32) : GuestM d Unit := do
  puts (lit key)
  putc (UInt8.ofNat '='.toNat)
  puthex val
  putc newline

def devErr : GuestM d UInt32 := do return if (← vlogStatus) &&& statusError ≠ 0 then 1 else 0

def devErrcode : GuestM d UInt32 := do return ((← vlogStatus) >>> 8) &&& 0xff

/-! ## Scenarios -/

def logOne (bi : Bootinfo) : GuestM d Unit := do
  let rc ← vlogWrite bi.level bi.scratchAddr bi.scratchLen
  obs "rc" rc
  obs "err" (← devErr)
  obs "seq" (← vlogSeq)

/-- `count` calls of `vlog_write`, and `err` with their results merged into it. -/
def writeTimes (bi : Bootinfo) (err : UInt32) : Nat → GuestM d UInt32
  | 0 => return err
  | count + 1 => do
      let rc ← vlogWrite bi.level bi.scratchAddr bi.scratchLen
      writeTimes bi (err ||| rc) count

def logMany (bi : Bootinfo) : GuestM d Unit := do
  let err ← writeTimes bi 0 bi.count.toNat
  obs "err" (if err ≠ 0 then 1 else 0)
  obs "seq" (← vlogSeq)

/-- The blob is read again where it is used after a command that writes to the guest's memory. -/
def stat (frame : Frame) (p : UInt64) (bi : Bootinfo) : GuestM d Unit := do
  let _ ← writeTimes bi 0 bi.count.toNat
  store32 frame.st 0xdeadbeef
  store32 (frame.st + 4) 0xdeadbeef
  obs "stat_rc" (← vlogStat frame.st 8)
  obs "records" (← load32 frame.st)
  obs "bytes" (← load32 (frame.st + 4))
  obs "seq" (← vlogSeq)
  store32 frame.small 0x11111111
  store32 (frame.small + 4) 0x22222222
  obs "small_rc" (← vlogStat frame.small (← readBootinfo p).arg0)
  obs "small_untouched" (← load32 frame.small)
  obs "badaddr_rc" (← vlogStat (← readBootinfo p).arg1.toUInt64 8)

def malformed (bi : Bootinfo) : GuestM d Unit := do
  mmioW32 regCmd 0x7f
  obs "err_badcmd" (← devErr)
  obs "errcode_badcmd" (← devErrcode)
  obs "rc_badlen" (← vlogWrite bi.level bi.scratchAddr bi.arg0)
  obs "rc_badaddr" (← vlogWrite bi.level bi.arg1.toUInt64 4)
  obs "seq" (← vlogSeq)

def ramTop : UInt64 := UInt64.ofNat (ramBase + ramSize)

def boundary (bi : Bootinfo) : GuestM d Unit := do
  let len := bi.arg0
  obs "rc_at_top" (← vlogWrite bi.level (ramTop - len.toUInt64) len)
  obs "seq_after_top" (← vlogSeq)
  obs "rc_past_top" (← vlogWrite bi.level (ramTop - len.toUInt64 + 1) len)
  obs "seq_final" (← vlogSeq)

def empty (bi : Bootinfo) : GuestM d Unit := do
  let rc ← vlogWrite bi.level bi.scratchAddr 0
  obs "rc" rc
  obs "err" (← devErr)
  obs "seq" (← vlogSeq)

def maxlen (bi : Bootinfo) : GuestM d Unit := do
  obs "rc_max" (← vlogWrite bi.level bi.scratchAddr vlogMaxMsg)
  obs "seq_after_max" (← vlogSeq)
  obs "rc_over" (← vlogWrite bi.level bi.scratchAddr (vlogMaxMsg + 1))
  obs "seq_final" (← vlogSeq)

def regs (bi : Bootinfo) : GuestM d Unit := do
  mmioW32 regMsgLo bi.arg0
  mmioW32 regMsgHi bi.arg1
  mmioW32 regLen bi.count
  mmioW32 regLevel bi.level
  obs "msg_lo" (← mmioR32 regMsgLo)
  obs "msg_hi" (← mmioR32 regMsgHi)
  obs "len" (← mmioR32 regLen)
  obs "level" (← mmioR32 regLevel)
  mmioW32 regId 0xdeadbeef
  mmioW32 regSeq 0x55555555
  obs "id_after_ro" (← vlogId)
  obs "seq_after_ro" (← vlogSeq)
  let before ← vlogStatus
  mmioW32 regStatus 0xdeadbeef
  obs "status_ro_unchanged" (if (← vlogStatus) = before then 1 else 0)

def nop (bi : Bootinfo) : GuestM d Unit := do
  mmioW32 regCmd bi.arg0
  obs "err_after_badcmd" (← devErr)
  obs "errcode_after_badcmd" (← devErrcode)
  mmioW32 regCmd cmdNop
  obs "err_after_nop" (← devErr)
  obs "seq" (← vlogSeq)

def recover (bi : Bootinfo) : GuestM d Unit := do
  mmioW32 regCmd bi.arg0
  obs "err_after_bad" (← devErr)
  logOne bi

def interleave (bi : Bootinfo) : GuestM d Unit := do
  obs "rc1" (← vlogWrite bi.level bi.scratchAddr bi.scratchLen)
  obs "rc2" (← vlogWrite bi.level bi.arg1.toUInt64 4)
  obs "rc3" (← vlogWrite bi.level bi.scratchAddr bi.scratchLen)
  obs "seq" (← vlogSeq)

def flush (bi : Bootinfo) : GuestM d Unit := do
  obs "rc_log" (← vlogWrite bi.level bi.scratchAddr bi.scratchLen)
  mmioW32 regCmd cmdFlush
  obs "err_after_flush" (← devErr)
  obs "seq" (← vlogSeq)

/-! ## Main -/

/-- The cases of the `switch`. -/
def switchCases (frame : Frame) (p : UInt64) (bi : Bootinfo) : List (UInt32 × GuestM d Unit) :=
  [(scLogOne, logOne bi), (scLogMany, logMany bi), (scStat, stat frame p bi),
    (scMalformed, malformed bi), (scBoundary, boundary bi), (scEmpty, empty bi),
    (scMaxlen, maxlen bi), (scRegs, regs bi), (scNop, nop bi), (scRecover, recover bi),
    (scInterleave, interleave bi), (scFlush, flush bi)]

/-- `main` with its exit code. -/
def agGuest (frame : Frame) (p : UInt64) : GuestM d UInt32 := do
  let bi ← readBootinfo p
  if bi.magic ≠ bootinfoMagic then return 1
  match (switchCases frame p bi).lookup bi.scenario with
  | some run => do
      run
      return 0
  | none => return 1

end Vlog.Guest
