import Vlog.Runner.Shipping

/-!
# A collector that is down

Runs in which no write to the collector succeeds, with the number of connection attempts that have
failed and the records emitted since the last of them. An attempt fails where `log_sink_connect`
returns -1, or where a write on the connection that it began fails for good.
-/

namespace Vlog.Runner

open Vlog.Lib Vlog.Libc

variable {α : Type*}

structure Retry (α : Type*) where
  sink : LogSink α
  fails : Nat
  since : Nat

def Retry.start (host : List Byte) (port : Nat) : Retry α :=
  { sink := .start (some host) port, fails := 0, since := 0 }

/-- The next record finds no connection and starts an attempt. -/
def LogSink.Attempts (s : LogSink α) : Prop := s.fd = none ∧ s.skip = 0

instance (s : LogSink α) : Decidable s.Attempts := inferInstanceAs (Decidable (_ ∧ _))

/-- An attempt that was under way, or started with this record, has failed with it. -/
def Retry.after (w : Retry α) (s : LogSink α) : Retry α :=
  if (w.sink.fd ≠ none ∨ w.sink.Attempts) ∧ s.fd = none then
    { sink := s, fails := w.fails + 1, since := 0 }
  else { sink := s, fails := w.fails, since := w.since + 1 }

/-- The answers to the two writes of a call where neither succeeds. -/
def failing (x : ConnectAnswer) (flush direct : Errno) : Answers :=
  { connect := x, flush := .failed flush, direct := .failed direct }

def Retry.Step (w : Retry α) (es : List (LogEvent α)) (w' : Retry α) : Prop :=
  ∃ line x flush direct r, logSinkEmit w.sink line (failing x flush direct) = some r ∧ es = r.2 ∧
    w' = w.after r.1

/-- The call writes, and the write fails for good. -/
def LogSink.HardFails (s : LogSink α) (x : ConnectAnswer) (flush direct : Errno) : Prop :=
  (s.fd ≠ none ∨ s.skip = 0 ∧ (logSinkConnect s x).1 = true) ∧
    logWouldBlock (if s.pend = [] then direct else flush) = false

/-- Behind the first failed attempt, no write fails for good. -/
def Retry.SoundStep (w : Retry α) (es : List (LogEvent α)) (w' : Retry α) : Prop :=
  ∃ line x flush direct r, logSinkEmit w.sink line (failing x flush direct) = some r ∧ es = r.2 ∧
    w' = w.after r.1 ∧ (0 < w.fails → ¬ w.sink.HardFails x flush direct)

/-- An attempt that the next record starts comes late enough behind the failed ones. -/
def Retry.Widened (w : Retry α) : Prop :=
  w.sink.Attempts → 0 < w.fails → min 64 (2 ^ (w.fails - 1)) ≤ w.since

end Vlog.Runner
