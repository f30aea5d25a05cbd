import Vlog.Lib.Lines
import Vlog.Lib.Run
import Vlog.Runner.LogSink

/-!
# Runs of the log sink

Records emitted one after the other, with what each connection has accepted so far. A record may
hold several lines; its last byte ends a line.
-/

namespace Vlog.Runner

open Vlog.Lib Vlog.Libc

variable {α : Type*}

def wireOf (c : Nat) (es : List (LogEvent α)) : List α :=
  es.flatMap fun | .write c' bytes => if c' = c then bytes else [] | _ => []

/-- The sink, what each connection has accepted, and the lines of all records emitted. -/
structure Shipping (α : Type*) where
  sink : LogSink α
  wire : Nat → List α
  lines : List (List α)

def Shipping.start (host : Option (List Byte)) (port : Nat) : Shipping α :=
  { sink := .start host port, wire := fun _ => [], lines := [] }

def Shipping.emitted (nl : α → Bool) (w : Shipping α) (line : List α)
    (r : LogSink α × List (LogEvent α)) : Shipping α :=
  { sink := r.1
    wire := fun c => w.wire c ++ wireOf c r.2
    lines := w.lines ++ cutLines nl line }

/-- The answers lead to neither of the two places where the sink loses its place in a line: a direct
write stopped short with a stale `errno` that says "would block", and a flush that fails for good
inside a line. -/
structure Shipping.Sound (nl : α → Bool) (w : Shipping α) (line : List α) (x : Answers) : Prop where
  direct : ∀ k errno, x.direct = .wrote k errno → k < line.length → logWouldBlock errno = false
  flush : ∀ c errno, w.sink.fd = some c → w.sink.pend ≠ [] → x.flush = .failed errno →
    logWouldBlock errno = false → w.wire c = [] ∨ EndsLine nl (w.wire c)

def Shipping.Step (nl : α → Bool) (w : Shipping α) (es : List (LogEvent α)) (w' : Shipping α) :
    Prop :=
  ∃ line x r, EndsLine nl line ∧ logSinkEmit w.sink line x = some r ∧ es = r.2 ∧
    w' = w.emitted nl line r

def Shipping.SoundStep (nl : α → Bool) (w : Shipping α) (es : List (LogEvent α))
    (w' : Shipping α) : Prop :=
  ∃ line x r, EndsLine nl line ∧ logSinkEmit w.sink line x = some r ∧ es = r.2 ∧
    w' = w.emitted nl line r ∧ w.Sound nl line x

end Vlog.Runner
