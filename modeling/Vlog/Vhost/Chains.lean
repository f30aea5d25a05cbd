import Vlog.Libc.Number
import Vlog.Vhost.Process
import Vlog.Vhost.Sink

/-!
# The guest of the virtqueue test (`tests/virtq_test.c`)

The test lays chains of descriptors into a guest memory of two regions and expects one record for each. What a
chain carries is read off from the contract in `vhost/virtq.h` and `vhost/virtio.c`. Host pointers are counted
from `gmem`.
-/

namespace Vlog.Vhost

open Vlog.Lib Vlog.Libc

/-! ## Memory -/

def r0Base : UInt64 := 0x40000000
def r1Base : UInt64 := 0x50000000
def rsize : UInt32 := 0x8000
def gmemSize : UInt32 := 2 * rsize
def offDesc : Nat := 0x0000
def offPay : UInt32 := 0x3000
def qnum : Nat := 8

def gpaOf (off : UInt32) : UInt64 :=
  if off < rsize then r0Base + off.toUInt64 else r1Base + (off - rsize).toUInt64

def testRegions : List VirtqMemRegion :=
  [{ gpa := r0Base, size := rsize.toUInt64, hva := 0 },
    { gpa := r1Base, size := rsize.toUInt64, hva := rsize.toUInt64 }]

/-! ## Descriptors -/

def descFNext : UInt16 := 1
def descFWrite : UInt16 := 2
def descFIndirect : UInt16 := 4

/-- `struct vring_desc` -/
structure VringDesc where
  addr : UInt64
  len : UInt32
  flags : UInt16
  next : UInt16
  deriving DecidableEq

/-- `sizeof(struct vring_desc)` -/
def descSize : Nat := 16

def VringDesc.bytes (d : VringDesc) : List UInt8 :=
  Memory.leBytes 8 d.addr.toNat ++ Memory.leBytes 4 d.len.toNat ++ Memory.leBytes 2 d.flags.toNat ++
    Memory.leBytes 2 d.next.toNat

def loadDesc (mem : Memory) (a : Nat) : VringDesc :=
  { addr := UInt64.ofNat (mem.load a 8), len := UInt32.ofNat (mem.load (a + 8) 4)
    flags := UInt16.ofNat (mem.load (a + 12) 2), next := UInt16.ofNat (mem.load (a + 14) 2) }

/-! ## The test -/

/-- `gmem`, `pay` and the `seed` of `main` -/
structure TestGuest where
  seed : UInt32
  pay : UInt32
  gmem : Memory

abbrev TestM := StateM TestGuest

def rnd (n : UInt32) : TestM UInt32 :=
  modifyGet fun g =>
    let s : UInt32 := g.seed ^^^ (g.seed <<< (13 : UInt32))
    let s : UInt32 := s ^^^ (s >>> (17 : UInt32))
    let s : UInt32 := s ^^^ (s <<< (5 : UInt32))
    (if n ≠ 0 then s % n else 0, { g with seed := s })

def allocPay (n align : UInt32) : TestM UInt32 :=
  modifyGet fun g =>
    let start := (g.pay + align - 1) &&& ~~~(align - 1)
    if start + n > gmemSize - 64 then (offPay, { g with pay := offPay + n })
    else (start, { g with pay := start + n })

def memcpy (a : Nat) (bytes : List UInt8) : TestM Unit :=
  modify fun g => { g with gmem := g.gmem.store a bytes }

def setDesc (tbl i : Nat) (d : VringDesc) : TestM Unit := memcpy (tbl + descSize * i) d.bytes

/-- The bytes that part `p` of `lay_chain` takes where `off` of `plen` are copied. -/
def takeLen (plen off nparts p : Nat) : TestM Nat := do
  if p + 1 = nparts then return plen - off
  else
    let r ← rnd (UInt32.ofInt ((plen : Int) - off - (nparts - p)))
    -- `if (take < 0) take = 0;`
    return (1 + r.toInt32.toInt).toNat

def layPart (tbl base link nparts p take : Nat) (bytes : List UInt8) : TestM Unit := do
  let b ← allocPay (if take ≠ 0 then UInt32.ofNat take else 1) 1
  memcpy b.toNat bytes
  setDesc tbl (base + p)
    { addr := gpaOf b, len := UInt32.ofNat take, flags := if p + 1 = nparts then 0 else descFNext
      next := UInt16.ofNat (link + p + 1) }

/-- The loop of `lay_chain`: `left` parts are to go, `p` are laid, and `off` bytes are copied. -/
def layParts (tbl base link nparts : Nat) (payload : List UInt8) : Nat → Nat → Nat → TestM Unit
  | 0, _, _ => return ()
  | left + 1, p, off => do
      let take ← takeLen payload.length off nparts p
      layPart tbl base link nparts p take ((payload.drop off).take take)
      layParts tbl base link nparts payload left (p + 1) (off + take)

def layChain (tbl base link : Nat) (payload : List UInt8) (nparts : Nat) : TestM Nat := do
  layParts tbl base link nparts payload nparts 0 0
  return nparts

inductive Stage
  | single
  | chained
  | indirect
  deriving DecidableEq

/-- `snprintf(payload, sizeof payload, "%u %s\n", level, text)` -/
def payloadOf (level : UInt32) (text : List Byte) : List Byte := fmtU level ++ lit " " ++ text ++ [newline]

/-- A descriptor that must not contribute bytes: device-writable, or unmapped -/
def layVoid (slot : Nat) : TestM Unit := do
  if (← rnd 2) ≠ 0 then
    let b ← allocPay 8 1
    memcpy b.toNat (lit "XXXXXXXX")
    setDesc offDesc slot { addr := gpaOf b, len := 8, flags := descFWrite, next := 0 }
  else setDesc offDesc slot { addr := 0x48000000, len := 8, flags := 0, next := 0 }

/-- The body of the loop over the chains of a round behind `payload`: the slot behind the chain -/
def layOne (stage : Stage) (slot : Nat) (payload : List Byte) : TestM Nat :=
  match stage with
  | .single => do
      let b ← allocPay (UInt32.ofNat payload.length) 1
      memcpy b.toNat payload
      setDesc offDesc slot { addr := gpaOf b, len := UInt32.ofNat payload.length, flags := 0, next := 0 }
      return slot + 1
  | .chained => do
      let nparts := 2 + (← rnd 2).toNat
      let slot := slot + (← layChain offDesc slot slot payload nparts)
      if (← rnd 2) ≠ 0 then
        let last := loadDesc (← get).gmem (offDesc + descSize * (slot - 1))
        setDesc offDesc (slot - 1) { last with flags := last.flags ||| descFNext, next := UInt16.ofNat slot }
        layVoid slot
        return slot + 1
      else return slot
  | .indirect => do
      let nparts := 1 + (← rnd 2).toNat
      let tbl ← allocPay (UInt32.ofNat (nparts * descSize)) 16
      let _ ← layChain tbl.toNat 0 0 payload nparts
      setDesc offDesc slot
        { addr := gpaOf tbl, len := UInt32.ofNat (nparts * descSize), flags := descFIndirect, next := 0 }
      return slot + 1

def drawText : Nat → TestM (List Byte)
  | 0 => return []
  | n + 1 => do
      let c ← rnd 26
      let cs ← drawText n
      return (UInt8.ofNat 'a'.toNat + c.toUInt8) :: cs

/-- What the test expects of a chain: its head, and the record -/
structure Expected where
  head : Nat
  level : UInt32
  text : List Byte
  deriving DecidableEq

/-- The loop over the chains of a round; `left` of them are to go. -/
def layRound (stage : Stage) : Nat → Nat → TestM (List Expected)
  | 0, _ => return []
  | left + 1, slot => do
      if slot + 4 ≤ qnum then
        let level ← rnd 6
        let tlen := 1 + (← rnd 24).toNat
        let text ← drawText tlen
        let slot' ← layOne stage slot (payloadOf level text)
        let rest ← layRound stage left slot'
        return { head := slot, level := level, text := text } :: rest
      else return []

def testRound (stage : Stage) : TestM (List Expected) := do
  let nchains := 1 + (← rnd 2).toNat
  layRound stage nchains 0

/-! ## What a chain carries -/

/-- A descriptor outside of indirect ones -/
inductive Piece (mem : Memory) (d : VringDesc) : List UInt8 → Prop
  | writable : d.flags &&& descFWrite ≠ 0 → Piece mem d []
  | data {hva} : d.flags &&& descFWrite = 0 → Translates testRegions d.addr d.len.toUInt64 hva →
      Piece mem d (mem.slice hva.toNat d.len.toNat)
  | rejected : d.flags &&& descFWrite = 0 → (∀ hva, ¬ Translates testRegions d.addr d.len.toUInt64 hva) →
      Piece mem d []

/-- From descriptor `i` of a table with `n`, the pieces up to the first without `VRING_DESC_F_NEXT` -/
inductive Chain (mem : Memory) (piece : VringDesc → List UInt8 → Prop) (tbl n : Nat) : Nat → List UInt8 → Prop
  | last {i bs} : i < n → (loadDesc mem (tbl + descSize * i)).flags &&& descFNext = 0 →
      piece (loadDesc mem (tbl + descSize * i)) bs → Chain mem piece tbl n i bs
  | next {i bs cs} : i < n → (loadDesc mem (tbl + descSize * i)).flags &&& descFNext ≠ 0 →
      piece (loadDesc mem (tbl + descSize * i)) bs →
      Chain mem piece tbl n (loadDesc mem (tbl + descSize * i)).next.toNat cs →
      Chain mem piece tbl n i (bs ++ cs)

/-- A descriptor of the ring's own table -/
inductive Part (mem : Memory) (d : VringDesc) : List UInt8 → Prop
  | plain {bs} : d.flags &&& descFIndirect = 0 → Piece mem d bs → Part mem d bs
  | table {hva bs} : d.flags &&& descFWrite = 0 → d.flags &&& descFIndirect ≠ 0 →
      Translates testRegions d.addr d.len.toUInt64 hva →
      Chain mem (Piece mem) hva.toNat (d.len.toNat / descSize) 0 bs → Part mem d bs

/-- No chain of the test reaches `VIRTQ_MAX_RECORD`. -/
def Carries (mem : Memory) (head : Nat) (bytes : List UInt8) : Prop :=
  Chain mem (Part mem) offDesc qnum head bytes

/-! ## Runs of the test -/

/-- `exp_log[n]` -/
def expLog (n : Nat) (e : Expected) : List Byte :=
  lit "[" ++ fmtU (UInt32.ofNat n) ++ lit "] " ++ Emulator.levelName e.level ++ lit " " ++ e.text

/-- `main` in front of the rounds; `calloc` cleared `gmem`. -/
def testStart (seed0 : UInt32) : TestGuest :=
  { seed := if seed0 ≠ 0 then seed0 else 1, pay := offPay, gmem := fun _ => 0 }

/-- A round and the call of the handler, which emits for each chain what it carries. The handler may leave anything
in the memory. -/
def RoundStep (stage : Stage) (g : TestGuest) (es : List (Expected × List Byte)) (g' : TestGuest) : Prop :=
  ∃ g₁, (testRound stage).run g = (es.map Prod.fst, g₁) ∧
    (∀ p ∈ es, Carries g₁.gmem p.1.head p.2) ∧ g'.seed = g₁.seed ∧ g'.pay = g₁.pay

inductive Rounds (stage : Stage) (g : TestGuest) : Nat → List (Expected × List Byte) → TestGuest → Prop
  | none : Rounds stage g 0 [] g
  | round {k es fs g₁ g₂} : Rounds stage g k es g₁ → RoundStep stage g₁ fs g₂ →
      Rounds stage g (k + 1) (es ++ fs) g₂

end Vlog.Vhost
