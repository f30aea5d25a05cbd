import Vlog.Runner.Shipping

/-!
# Whose bytes are where

The sink with every byte marked by the number of the record that it belongs to. Equal lines of
different records are different then, and so are the bytes of a record that is sent twice and those
of its successor. `logSinkEmit_map` states that the marks change nothing.
-/

namespace Vlog.Runner

open Vlog.Lib Vlog.Libc

variable {α β : Type*}

def LogSink.map (f : α → β) (s : LogSink α) : LogSink β :=
  { host := s.host, port := s.port, fd := s.fd, skip := s.skip, backoff := s.backoff
    pend := s.pend.map f, opened := s.opened }

def LogEvent.map (f : α → β) : LogEvent α → LogEvent β
  | .connect ip port => .connect ip port
  | .write conn bytes => .write conn (bytes.map f)
  | .close conn => .close conn

/-- All that writes have accepted, whatever the connection. -/
def written (es : List (LogEvent α)) : List α :=
  es.flatMap fun | .write _ bytes => bytes | _ => []

def numbered (k : Nat) (line : List Byte) : List (Nat × Byte) := line.map fun b => (k, b)

structure Ledger where
  sink : LogSink (Nat × Byte)
  emitted : List (List Byte)
  accepted : List (Nat × Byte)

def Ledger.start (host : Option (List Byte)) (port : Nat) : Ledger :=
  { sink := .start host port, emitted := [], accepted := [] }

/-- The next record's line, as the sink gets it. -/
def Ledger.next (w : Ledger) (line : List Byte) : List (Nat × Byte) :=
  numbered w.emitted.length line

/-- The line of the record with number `k`. -/
def Ledger.record (w : Ledger) (k : Nat) : List (Nat × Byte) := numbered k (w.emitted.getD k [])

def Ledger.after (w : Ledger) (line : List Byte)
    (r : LogSink (Nat × Byte) × List (LogEvent (Nat × Byte))) : Ledger :=
  { sink := r.1, emitted := w.emitted ++ [line], accepted := w.accepted ++ written r.2 }

def Ledger.Step (w : Ledger) (es : List (LogEvent (Nat × Byte))) (w' : Ledger) : Prop :=
  ∃ line x r, logSinkEmit w.sink (w.next line) x = some r ∧ es = r.2 ∧ w' = w.after line r

/-- The end of one record's line, and whole lines of later records in their order. -/
def Ledger.Ordered (w : Ledger) (pend : List (Nat × Byte)) : Prop :=
  pend = [] ∨ ∃ k front ks, (k :: ks).Pairwise (· < ·) ∧ (∀ i ∈ k :: ks, i < w.emitted.length) ∧
    front <:+ w.record k ∧ pend = front ++ ks.flatMap w.record

/-- What a call does with the pending bytes and the line: a write accepts the first `k` pending bytes;
the line is accepted whole by a write, or comes behind the pending bytes left, or finds no room. -/
def Accounted (s : LogSink α) (line : List α) (es : List (LogEvent α)) (t : LogSink α) : Prop :=
  ∃ k, (s.pend.take k ≠ [] → ∃ c, .write c (s.pend.take k) ∈ es) ∧
    ((t.pend = s.pend.drop k ∧ ∃ c, .write c line ∈ es) ∨
      (t.pend = s.pend.drop k ++ line ∧ t.pend.length ≤ logPendSize) ∨
      (t.pend = s.pend.drop k ∧ logPendSize < (s.pend.drop k).length + line.length))

end Vlog.Runner
