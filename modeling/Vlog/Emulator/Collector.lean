import Vlog.Lib.Run
import Vlog.Emulator.Lemmas.Feed

/-!
# What the collector is for

The collector without its arrays: the open connections in a list, each with its own unfinished line,
and one shared store that the finished lines are appended to. The listener's slots, its poll entries
and its compaction do not appear here.
-/

namespace Vlog.Emulator

open Vlog.Lib Vlog.Libc

structure Collector where
  nl : Netlog
  conns : List Conn
  accepted : Nat
  /-- The connection last read from, and the bytes of that read not yet fed. -/
  unfed : Option (Nat × List Byte)

def Collector.start (store : Logstore) : Collector :=
  { nl := netlogStart store, conns := [], accepted := 0, unfed := none }

inductive Collector.Step : Collector → List Event → Collector → Prop
  | stay {h} : Step h [] h
  | accept {h} (fd) :
      Step h [] { h with
        conns := h.conns ++ [{ fd := fd, buf := [], serial := h.accepted }]
        accepted := h.accepted + 1 }
  | read {h c} : c ∈ h.conns → h.unfed = none → ∀ bytes,
      Step h [.read c.serial bytes] { h with unfed := some (c.serial, bytes) }
  | byte {h front c back ch data} : h.conns = front ++ c :: back →
      h.unfed = some (c.serial, ch :: data) →
      Step h (feedByte h.nl c ch).2.2 { h with
        nl := (feedByte h.nl c ch).1
        conns := front ++ (feedByte h.nl c ch).2.1 :: back
        unfed := some (c.serial, data) }
  | fed {h k} : h.unfed = some (k, []) → Step h [] { h with unfed := none }
  | close {h front c back} : h.conns = front ++ c :: back →
      h.unfed = none ∨ h.unfed = some (c.serial, []) →
      Step h [.close c.serial] { h with conns := front ++ back, unfed := none }
  | leave {h} : Step h (h.conns.map fun c => .close c.serial) { h with conns := [] }

/-! ## Histories -/

def bytesOf (k : Nat) (es : List Event) : List Byte :=
  es.flatMap fun | .read k' bytes => if k' = k then bytes else [] | _ => []

def linesOf (k : Nat) (es : List Event) : List (List Byte) :=
  es.flatMap fun | .line k' l _ => if k' = k then [l] else [] | _ => []

def records (es : List Event) : List Record :=
  es.flatMap fun | .line _ _ r => [r] | _ => []

def recordsOf (k : Nat) (es : List Event) : List Record :=
  es.flatMap fun | .line k' _ r => if k' = k then [r] else [] | _ => []

@[simp] theorem bytesOf_append (k : Nat) (es fs : List Event) :
    bytesOf k (es ++ fs) = bytesOf k es ++ bytesOf k fs := by simp [bytesOf]

@[simp] theorem linesOf_append (k : Nat) (es fs : List Event) :
    linesOf k (es ++ fs) = linesOf k es ++ linesOf k fs := by simp [linesOf]

@[simp] theorem records_append (es fs : List Event) :
    records (es ++ fs) = records es ++ records fs := by simp [records]

@[simp] theorem recordsOf_append (k : Nat) (es fs : List Event) :
    recordsOf k (es ++ fs) = recordsOf k es ++ recordsOf k fs := by simp [recordsOf]

@[simp] theorem bytesOf_read (k j : Nat) (bytes : List Byte) :
    bytesOf k [.read j bytes] = if j = k then bytes else [] := by simp [bytesOf]

@[simp] theorem linesOf_read (k j : Nat) (bytes : List Byte) : linesOf k [.read j bytes] = [] := rfl

@[simp] theorem records_line (k : Nat) (l : List Byte) (r : Record) :
    records [.line k l r] = [r] := rfl

/-! ## Every connection is framed by itself -/

/-- All bytes read from a connection but the last `data` have been cut into the lines handed on and
the buffer. -/
def Framed (es : List Event) (k : Nat) (buf data : List Byte) : Prop :=
  ∃ fed, bytesOf k es = fed ++ data ∧ pushAll newline lineBound [] fed = (linesOf k es, buf)

def unfedOf (k : Nat) : Option (Nat × List Byte) → List Byte
  | some (j, data) => if j = k then data else []
  | none => []

structure Collector.Inv (es : List Event) (h : Collector) : Prop where
  serials : (h.conns.map Conn.serial).Nodup
  serial_lt : ∀ c ∈ h.conns, c.serial < h.accepted
  framed : ∀ k, ∃ buf, Framed es k buf (unfedOf k h.unfed) ∧
    ∀ c ∈ h.conns, c.serial = k → c.buf = buf
  fresh : ∀ k, h.accepted ≤ k → Framed es k [] [] ∧ unfedOf k h.unfed = []

/-- The records are numbered from 0 in the order of the appends, and they are what the file grew
by. -/
structure Numbered (store : Logstore) (es : List Event) (nl : Netlog) : Prop where
  seq : nl.seq = UInt32.ofNat (records es).length
  numbers : ∀ i r, (records es)[i]? = some r → r.seq = UInt32.ofNat i
  file : nl.store.file = store.file ++ (records es).flatMap Record.text

end Vlog.Emulator
