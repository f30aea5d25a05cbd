import Vlog.Lib.Run
import Vlog.Libc.Hex
import Vlog.Guest.Library

/-!
# What the guest library is for

The calls that a guest program makes of the library, and a journal that says what they come to. The journal
has its lines in the order in which they were written, and nothing of registers.
-/

namespace Vlog.Guest

open Vlog.Lib Vlog.Libc Vlog.Device
open Vlog.Emulator (Record)

variable {d : MmioDevice}

/-! ## Strings -/

/-- `while (s[len]) len++;` from `len` on; `none` where the loop leaves the RAM or never ends. -/
def stringLen (mem : Memory) (s : UInt64) (len : UInt32) : Option UInt32 :=
  if ¬ InRam (s + len.toUInt64) 1 then none
  else if mem (s + len.toUInt64).toNat = 0 then some len
  -- Back at 0, the loop does the same again.
  else if len + 1 = 0 then none
  else stringLen mem s (len + 1)
termination_by 2 ^ 32 - len.toNat
decreasing_by
  rename_i hwrap
  have hlt := len.toNat_lt
  have hne : (len + 1).toNat ≠ 0 := fun h => hwrap (UInt32.toNat_inj.mp h)
  rw [UInt32.toNat_add, UInt32.toNat_one] at hne ⊢
  omega

def vlog (level : UInt32) (s : UInt64) : GuestM d (Option UInt32) := do
  match stringLen (← get).mem s 0 with
  | some len => return some (← vlogWrite level s len)
  | none => return none

/-! ## Calls -/

/-- What a guest program does with the device, the RAM and the console. -/
inductive Call
  | id
  | status
  | seq
  | write (level : UInt32) (msg : UInt64) (len : UInt32)
  | vlog (level : UInt32) (s : UInt64)
  | stat (out : UInt64) (len : UInt32)
  -- A command that the library has no function for.
  | command (cmd : UInt32) (other : cmd ≠ cmdLog ∧ cmd ≠ cmdStat)
  | load (a : UInt64)
  | store (a : UInt64) (val : UInt32)
  | puts (text : List Byte)
  | puthex (v : UInt32)

/-- `none` for an access outside of the RAM, where there are device registers or nothing: what follows is not
modelled. -/
def Call.run : Call → GuestM d (Option UInt32)
  | .id => do return some (← vlogId)
  | .status => do return some (← vlogStatus)
  | .seq => do return some (← vlogSeq)
  | .write level msg len => do return some (← vlogWrite level msg len)
  | .vlog level s => Guest.vlog level s
  | .stat out len => do return some (← vlogStat out len)
  | .command cmd _ => do
      mmioW32 regCmd cmd
      return some 0
  | .load a => do
      if InRam a 4 then return some (← load32 a) else return none
  | .store a val => do
      if InRam a 4 then
        store32 a val
        return some 0
      else return none
  | .puts text => do
      Guest.puts text
      return some 0
  | .puthex v => do
      Guest.puthex v
      return some 0

/-- The calls in turn, up to one that does not return. -/
def runCalls : List Call → GuestM d (List UInt32)
  | [] => return []
  | c :: cs => do
      match ← c.run with
      | some r => return r :: (← runCalls cs)
      | none => return []

/-- The device has taken a message: `vlog_write` returned 0. -/
def Call.logged : Call × UInt32 → Bool
  | (.write .., r) | (.vlog .., r) => r == 0
  | _ => false

/-! ## The journal -/

structure Journal where
  lines : List (UInt32 × List Byte)
  /-- The code of the last command. -/
  last : UInt8
  mem : Memory
  out : List Byte

namespace Journal

def start (mem : Memory) : Journal := { lines := [], last := errNone, mem := mem, out := [] }

def size (j : Journal) : Nat := (j.lines.map fun l => l.2.length).sum

def records (j : Journal) : List Record :=
  j.lines.mapIdx fun i l => { seq := UInt32.ofNat i, level := l.1, bytes := l.2 }

def add (j : Journal) (level : UInt32) (bytes : List Byte) : Journal :=
  { j with lines := j.lines ++ [(level, bytes)], last := errNone }

/-- The C string at `s` has this length, and all of it is in the RAM. -/
structure IsLen (mem : Memory) (s : UInt64) (len : UInt32) : Prop where
  ram : ∀ i ≤ len, InRam (s + i.toUInt64) 1
  ends : mem (s + len.toUInt64).toNat = 0
  before : ∀ i < len, mem (s + i.toUInt64).toNat ≠ 0

abbrev Fits (msg : UInt64) (len : UInt32) : Prop := len ≤ vlogMaxMsg ∧ (len = 0 ∨ InRam msg len.toNat)

/-- What a call returns and leaves. Where a message is both too long and outside of the memory, the contract
may leave the code to the device. -/
inductive Step (p : Priority) : Journal → Call → UInt32 → Journal → Prop
  | id {j} : Step p j .id vlogMagic j
  | status {j st} : st &&& statusFields = statusWord j.last → Step p j .status st j
  | seq {j} : Step p j .seq (UInt32.ofNat j.lines.length) j
  | written {j level msg len} : Fits msg len →
      Step p j (.write level msg len) 0 (j.add level (j.mem.slice msg.toNat len.toNat))
  | refused {j level msg len code} : ¬ Fits msg len → code ∈ p.codes (logFaults msg len) →
      Step p j (.write level msg len) code.toUInt32 { j with last := code }
  | string {j level s len r j'} : IsLen j.mem s len → Step p j (.write level s len) r j' →
      Step p j (.vlog level s) r j'
  | counted {j out len} : statsSize ≤ len.toNat → InRam out statsSize →
      Step p j (.stat out len) 0 { j with
        last := errNone
        mem := j.mem.store out.toNat
          (Memory.leBytes 4 (j.lines.length % 2 ^ 32) ++ Memory.leBytes 4 (j.size % 2 ^ 32)) }
  | uncounted {j out len code} : ¬ (statsSize ≤ len.toNat ∧ InRam out statsSize) →
      code ∈ p.codes (statFaults out len) → Step p j (.stat out len) code.toUInt32 { j with last := code }
  | quiet {j cmd other} : cmd = cmdNop ∨ cmd = cmdFlush →
      Step p j (.command cmd other) 0 { j with last := errNone }
  | unknown {j cmd other} : ¬ (cmd = cmdNop ∨ cmd = cmdFlush) →
      Step p j (.command cmd other) 0 { j with last := errBadCmd }
  | load {j a} : InRam a 4 → Step p j (.load a) (UInt32.ofNat (j.mem.load a.toNat 4)) j
  | store {j a val} : InRam a 4 →
      Step p j (.store a val) 0 { j with mem := j.mem.store a.toNat (Memory.leBytes 4 val.toNat) }
  | puts {j text} : Step p j (.puts text) 0 { j with out := j.out ++ text }
  | puthex {j v} : Step p j (.puthex v) 0 { j with out := j.out ++ (lit "0x" ++ fmtX8 v) }

def Steps (p : Priority) (j : Journal) (es : List (Call × UInt32)) (j' : Journal) : Prop :=
  ∃ c r, es = [(c, r)] ∧ Step p j c r j'

/-- The call goes outside of the RAM. -/
inductive Strays (j : Journal) : Call → Prop
  | vlog {level s} : (∀ len, ¬ IsLen j.mem s len) → Strays j (.vlog level s)
  | load {a} : ¬ InRam a 4 → Strays j (.load a)
  | store {a val} : ¬ InRam a 4 → Strays j (.store a val)

end Journal

end Vlog.Guest
