import Vlog.Guest.Bootinfo
import Vlog.Libc.Hex
import Vlog.Libc.Number
import Vlog.Lib.Lcg

/-!
# The test oracle (`tests/oracle.c`)

The generator, the files that the oracle writes, and the scenarios with the ranges from which their
parameters are drawn.
-/

namespace Vlog.Guest

open Vlog.Lib Vlog.Libc Vlog.Device

/-! ## Random numbers -/

abbrev Draw := StateM UInt64

def rngSeed (s : UInt64) : UInt64 := if s ≠ 0 then s else 0x9E3779B97F4A7C15

def rngNext (s : UInt64) : UInt64 := s * 6364136223846793005 + 1442695040888963407

def rngWord (s : UInt64) : UInt32 := (s >>> 33).toUInt32

def rngU32 : Draw UInt32 := do
  modify rngNext
  return rngWord (← get)

def rngRange (lo hi : UInt32) : Draw UInt32 := do return lo + (← rngU32) % (hi - lo + 1)

/-- The loop body of `fill_binsafe` without its test. -/
def drawByte : Draw Byte := do return (← rngRange 0x00 0xff).toUInt8

theorem rngNext_toNat (s : UInt64) :
    (rngNext s).toNat = lcg 6364136223846793005 1442695040888963407 s.toNat % 2 ^ 64 := by
  simp [rngNext, lcg]

theorem drawByte_toNat (s : UInt64) :
    (drawByte s).1.toNat = (rngNext s).toNat / 2 ^ 33 % 256 := by
  have hrange : (drawByte s).1 = (0 + rngWord (rngNext s) % (0xff - 0x00 + 1)).toUInt8 := rfl
  rw [hrange, rngWord]
  simp [Nat.shiftRight_eq_div_pow]

/-- A newline is drawn again and again for a while only. -/
theorem exists_other_byte (s : UInt64) : ∃ n, (drawByte (rngNext^[n] s)).1 ≠ newline := by
  by_contra hall
  push Not at hall
  have hbit : ∀ n, (rngNext^[n + 1] s).toNat / 2 ^ 33 % 256 = 10 := by
    intro n
    have hdraw := congrArg UInt8.toNat (hall n)
    rw [drawByte_toNat, ← Function.iterate_succ_apply' rngNext] at hdraw
    exact hdraw
  have hchange := lcg_bit_changes (a := 6364136223846793005) (c := 1442695040888963407) (by decide)
    (by decide) 33 (rngNext s).toNat
  have hiter := lcg_iterate_mod (w := 64) UInt64.toNat_lt rngNext_toNat (2 ^ 33) (rngNext s)
  have hfirst := hbit 0
  have hlater := hbit (2 ^ 33)
  rw [Function.iterate_succ_apply, hiter] at hlater
  rw [Function.iterate_succ_apply, Function.iterate_zero_apply] at hfirst
  omega

/-- `do { b = (uint8_t)rng_range(0x00, 0xff); } while (b == 0x0a);` -/
def otherByte (s : UInt64) : Byte × UInt64 :=
  if (drawByte s).1 = newline then otherByte (drawByte s).2 else drawByte s
termination_by Nat.find (exists_other_byte s)
decreasing_by
  rename_i h
  have hpos : Nat.find (exists_other_byte s) ≠ 0 := fun h₀ =>
    (Nat.find_eq_zero (exists_other_byte s)).mp h₀ h
  have hspec := Nat.find_spec (exists_other_byte s)
  obtain ⟨n, hn⟩ := Nat.exists_eq_succ_of_ne_zero hpos
  rw [hn, Function.iterate_succ_apply] at hspec
  have hle := Nat.find_min' (exists_other_byte (drawByte s).2) hspec
  omega

def fill (draw : Draw Byte) : Nat → Draw (List Byte)
  | 0 => return []
  | len + 1 => do
      let b ← draw
      let bs ← fill draw len
      return b :: bs

def fillPrintable (len : UInt32) : Draw (List Byte) :=
  fill (do return (← rngRange 0x21 0x7e).toUInt8) len.toNat

def fillBinsafe (len : UInt32) : Draw (List Byte) := fill otherByte len.toNat

/-! ## Files -/

/-- The three files of one run. -/
structure Output where
  blob : List Byte
  obs : List Byte
  log : Option (List Byte)
  deriving DecidableEq

def writeBlob (bi : Bootinfo) (scratch : List Byte) : List Byte :=
  bi.packed ++ List.replicate (bootinfoHdrBytes - bi.packed.length) 0 ++ scratch

/-- `fprintf(obsf, "%s=0x%08x\n", key, val)` -/
def obsLine (key : String) (val : UInt32) : List Byte :=
  lit key ++ lit "=0x" ++ fmtX8 val ++ [newline]

def levelName (l : UInt32) : List Byte :=
  match l.toNat with
  | 0 => lit "DEBUG"
  | 1 => lit "INFO"
  | 2 => lit "WARN"
  | 3 => lit "ERROR"
  | _ => lit "LVL?"

def logRecord (seq level : UInt32) (msg : List Byte) : List Byte :=
  lit "[" ++ fmtU seq ++ lit "] " ++ levelName level ++ lit " " ++ msg ++ [newline]

def logRecords (count : Nat) (level : UInt32) (msg : List Byte) : List Byte :=
  (List.range count).flatMap fun i => logRecord (UInt32.ofNat i) level msg

/-- The header before a scenario sets its fields. -/
def Bootinfo.start : Bootinfo :=
  { magic := bootinfoMagic, scenario := 0
    scratchAddr := bootinfoBase + UInt64.ofNat bootinfoHdrBytes
    scratchLen := 0, level := 0, count := 0, arg0 := 0, arg1 := 0 }

/-! ## Scenarios -/

/-- The scenarios with `SC_LOG_ONE` behaviour. -/
def logOneFiles (len level : UInt32) (scratch : List Byte) : Output :=
  { blob := writeBlob { Bootinfo.start with scenario := scLogOne, scratchLen := len, level := level
                                            count := 1 } scratch
    obs := obsLine "rc" 0 ++ obsLine "err" 0 ++ obsLine "seq" 1
    log := some (logRecord 0 level scratch) }

def logManyFiles (count len level : UInt32) (scratch : List Byte) : Output :=
  { blob := writeBlob { Bootinfo.start with scenario := scLogMany, scratchLen := len, level := level
                                            count := count } scratch
    obs := obsLine "err" 0 ++ obsLine "seq" count
    log := some (logRecords count.toNat level scratch) }

def malformedFiles (level badlen badaddr : UInt32) (scratch : List Byte) : Output :=
  { blob := writeBlob { Bootinfo.start with scenario := scMalformed, scratchLen := 8, level := level
                                            arg0 := badlen, arg1 := badaddr } scratch
    obs := obsLine "err_badcmd" 1 ++ obsLine "errcode_badcmd" errBadCmd.toUInt32 ++
      obsLine "rc_badlen" errBadLen.toUInt32 ++ obsLine "rc_badaddr" errBadAddr.toUInt32 ++
      obsLine "seq" 0
    log := some [] }

def boundaryFiles (level len : UInt32) : Output :=
  { blob := writeBlob { Bootinfo.start with scenario := scBoundary, level := level, arg0 := len } []
    obs := obsLine "rc_at_top" 0 ++ obsLine "seq_after_top" 1 ++
      obsLine "rc_past_top" errBadAddr.toUInt32 ++ obsLine "seq_final" 1
    log := none }

def emptyFiles (level : UInt32) : Output :=
  { blob := writeBlob { Bootinfo.start with scenario := scEmpty, level := level, count := 1 } []
    obs := obsLine "rc" 0 ++ obsLine "err" 0 ++ obsLine "seq" 1
    log := some (logRecord 0 level []) }

def maxlenFiles (level : UInt32) (scratch : List Byte) : Output :=
  { blob := writeBlob { Bootinfo.start with scenario := scMaxlen, scratchLen := vlogMaxMsg
                                            level := level } scratch
    obs := obsLine "rc_max" 0 ++ obsLine "seq_after_max" 1 ++
      obsLine "rc_over" errBadLen.toUInt32 ++ obsLine "seq_final" 1
    log := some (logRecord 0 level scratch) }

def regsFiles (lo hi len level : UInt32) : Output :=
  { blob := writeBlob { Bootinfo.start with scenario := scRegs, arg0 := lo, arg1 := hi, count := len
                                            level := level } []
    obs := obsLine "msg_lo" lo ++ obsLine "msg_hi" hi ++ obsLine "len" len ++ obsLine "level" level ++
      obsLine "id_after_ro" vlogMagic ++ obsLine "seq_after_ro" 0 ++ obsLine "status_ro_unchanged" 1
    log := none }

def nopFiles (badcmd : UInt32) : Output :=
  { blob := writeBlob { Bootinfo.start with scenario := scNop, arg0 := badcmd } []
    obs := obsLine "err_after_badcmd" 1 ++ obsLine "errcode_after_badcmd" errBadCmd.toUInt32 ++
      obsLine "err_after_nop" 0 ++ obsLine "seq" 0
    log := none }

def recoverFiles (len level badcmd : UInt32) (scratch : List Byte) : Output :=
  { blob := writeBlob { Bootinfo.start with scenario := scRecover, scratchLen := len, level := level
                                            arg0 := badcmd } scratch
    obs := obsLine "err_after_bad" 1 ++ obsLine "rc" 0 ++ obsLine "err" 0 ++ obsLine "seq" 1
    log := some (logRecord 0 level scratch) }

def interleaveFiles (len level badaddr : UInt32) (scratch : List Byte) : Output :=
  { blob := writeBlob { Bootinfo.start with scenario := scInterleave, scratchLen := len, level := level
                                            arg1 := badaddr } scratch
    obs := obsLine "rc1" 0 ++ obsLine "rc2" errBadAddr.toUInt32 ++ obsLine "rc3" 0 ++ obsLine "seq" 2
    log := some (logRecord 0 level scratch ++ logRecord 1 level scratch) }

def flushFiles (len level : UInt32) (scratch : List Byte) : Output :=
  { blob := writeBlob { Bootinfo.start with scenario := scFlush, scratchLen := len, level := level
                                            count := 1 } scratch
    obs := obsLine "rc_log" 0 ++ obsLine "err_after_flush" 0 ++ obsLine "seq" 1
    log := some (logRecord 0 level scratch) }

def statFiles (level len count small badaddr : UInt32) (scratch : List Byte) : Output :=
  { blob := writeBlob { Bootinfo.start with scenario := scStat, scratchLen := len, level := level
                                            count := count, arg0 := small, arg1 := badaddr } scratch
    obs := obsLine "stat_rc" 0 ++ obsLine "records" count ++ obsLine "bytes" (count * len) ++
      obsLine "seq" count ++ obsLine "small_rc" errBadLen.toUInt32 ++
      obsLine "small_untouched" 0x11111111 ++ obsLine "badaddr_rc" errBadAddr.toUInt32
    log := some (logRecords count.toNat level scratch) }

/-! ## Main -/

inductive Scenario
  | logOne | logMany | malformed | boundary | empty | maxlen | levelOob | binsafe | regs | nop
  | recover | interleave | flush | stat
  deriving DecidableEq

/-- The addresses below RAM from which the bad ones are drawn. -/
def badAddr : Draw UInt32 := rngRange 0x1000 (UInt32.ofNat ramBase - 16)

def Scenario.files : Scenario → Draw Output
  | .logOne => do
      let len ← rngRange 1 64
      let level ← rngRange 0 3
      return logOneFiles len level (← fillPrintable len)
  | .logMany => do
      let count ← rngRange 2 16
      let len ← rngRange 1 32
      let level ← rngRange 0 3
      return logManyFiles count len level (← fillPrintable len)
  | .malformed => do
      let level ← rngRange 0 3
      let badlen ← rngRange (vlogMaxMsg + 1) 100000
      let badaddr ← badAddr
      return malformedFiles level badlen badaddr (← fillPrintable 8)
  | .boundary => do
      let level ← rngRange 0 3
      let len ← rngRange 1 16
      return boundaryFiles level len
  | .empty => do
      let level ← rngRange 0 3
      return emptyFiles level
  | .maxlen => do
      let level ← rngRange 0 3
      return maxlenFiles level (← fillPrintable vlogMaxMsg)
  | .levelOob => do
      let len ← rngRange 1 32
      let level ← rngRange 4 1000
      return logOneFiles len level (← fillPrintable len)
  | .binsafe => do
      let len ← rngRange 4 64
      let level ← rngRange 0 3
      let scratch ← fillBinsafe len
      return logOneFiles len level
        ((scratch.set (len / 2).toNat 0x00).set (len - 1).toNat 0xff)
  | .regs => do
      let lo ← rngU32
      let hi ← rngU32
      let len ← rngU32
      let level ← rngU32
      return regsFiles lo hi len level
  | .nop => do
      let badcmd ← rngRange 3 0xffff
      return nopFiles badcmd
  | .recover => do
      let len ← rngRange 1 32
      let level ← rngRange 0 3
      let badcmd ← rngRange 3 0xffff
      return recoverFiles len level badcmd (← fillPrintable len)
  | .interleave => do
      let len ← rngRange 1 32
      let level ← rngRange 0 3
      let badaddr ← badAddr
      return interleaveFiles len level badaddr (← fillPrintable len)
  | .flush => do
      let len ← rngRange 1 32
      let level ← rngRange 0 3
      return flushFiles len level (← fillPrintable len)
  | .stat => do
      let level ← rngRange 0 3
      let len ← rngRange 1 64
      let count ← rngRange 1 8
      let small ← rngRange 0 (UInt32.ofNat statsSize - 1)
      let badaddr ← badAddr
      return statFiles level len count small badaddr (← fillPrintable len)

def oracle (scen : Scenario) (seed : UInt64) : Output := (scen.files (rngSeed seed)).1

/-! ## The first numbers drawn -/

def firstWord (seed : UInt64) : UInt32 := rngWord (rngNext (rngSeed seed))

def secondWord (seed : UInt64) : UInt32 := rngWord (rngNext (rngNext (rngSeed seed)))

end Vlog.Guest
