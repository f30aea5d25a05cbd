import Vlog.Lib.Run
import Vlog.Runner.Protocol

/-!
# The server loop of the runner (`runner/runner.c`)

The loop of `main` reads once from each connection that it accepts. The process lives as long as no
write raises SIGPIPE: the runner leaves that signal at its default action, which ends the process,
and passes no flag that holds it back.
-/

namespace Vlog.Runner

open Vlog.Lib Vlog.Libc

def replySize : Nat := 512

/-! ## One connection -/

/-- What `main` writes to a client where the reads on the connection would return `chunks` in turn;
a connection without one is closed. -/
def replyTo (info : Nat → Int × List Byte) (chunks : List (List Byte)) : Option (List Byte) :=
  match chunks with
  | [] => none
  | chunk :: _ =>
      let request := chunk.take (lineMaxLen - 1)
      if request.length = 0 then none else some (cstr (handleLine info request replySize).reply)

/-! ## The process -/

def epipe : Errno := .other 32

/-- A `write` on a stream socket that fails with EPIPE raises SIGPIPE. -/
def WriteAnswer.sigpipe : WriteAnswer → Bool
  | .wrote _ _ => false
  | .failed errno => errno = epipe

/-- The answers to the calls of `write` that `LogSink.send` makes. -/
def LogSink.sendWrites {α : Type*} (s : LogSink α) (x : Answers) : List WriteAnswer :=
  if s.pend.length ≠ 0 then
    match x.flush with
    | .wrote w _ => if w = s.pend.length then [x.flush, x.direct] else [x.flush]
    | .failed _ => [x.flush]
  else [x.direct]

/-- The answers to the calls of `write` that `logSinkEmit` makes. -/
def logSinkWrites {α : Type*} (s : LogSink α) (x : Answers) : List WriteAnswer :=
  if s.host.isNone then []
  else match s.fd with
    | some _ => s.sendWrites x
    | none =>
        if 0 < s.skip then []
        else if (logSinkConnect s x.connect).1 then s.sendWrites x else []

structure Proc where
  sink : LogSink Byte
  terminated : Bool

def Proc.start (host : Option (List Byte)) (port : Nat) : Proc :=
  { sink := .start host port, terminated := false }

inductive ServerEvent
  | record (line : List Byte) (x : Answers)
  | reply (bytes : List Byte) (y : WriteAnswer)

/-- The process afterwards, if there is one and the answers are such as `write` can give. -/
def Proc.next (p : Proc) (e : ServerEvent) : Option Proc :=
  if p.terminated then none
  else match e with
    | .record line x =>
        (logSinkEmit p.sink line x).map fun r =>
          { sink := r.1, terminated := (logSinkWrites p.sink x).any WriteAnswer.sigpipe }
    | .reply _ y => some { p with terminated := y.sigpipe }

def Proc.Step (p : Proc) (es : List ServerEvent) (p' : Proc) : Prop :=
  ∃ e, es = [e] ∧ p.next e = some p'

/-! ## Broken connections -/

/-- The call holds a connection to the collector or opens one. -/
def LogSink.Reaches {α : Type*} (s : LogSink α) (x : Answers) : Prop :=
  s.host ≠ none ∧ (s.fd ≠ none ∨ s.skip = 0 ∧ (logSinkConnect s x.connect).1 = true)

/-- No connection is broken when the step writes to it: neither that of the collector at the flush or
behind a flush that empties the buffer, nor that of the client. -/
def Proc.Intact (p : Proc) : ServerEvent → Prop
  | .record _ x => p.sink.Reaches x →
      (p.sink.pend ≠ [] → x.flush ≠ .failed epipe) ∧
      (p.sink.pend = [] ∨ (∃ errno, x.flush = .wrote p.sink.pend.length errno) →
        x.direct ≠ .failed epipe)
  | .reply _ y => y ≠ .failed epipe

def Proc.IntactStep (p : Proc) (es : List ServerEvent) (p' : Proc) : Prop :=
  ∃ e, es = [e] ∧ p.next e = some p' ∧ p.Intact e

/-! ## The loop -/

/-- What happens on one accepted connection: what is read, the answers to the calls of
`log_sink_emit` on the way, and the answer to the write of the reply. -/
structure Visit where
  chunks : List (List Byte)
  answers : Nat → Answers
  client : WriteAnswer

def Visit.records (info : Nat → Int × List Byte) (v : Visit) : List ServerEvent :=
  match v.chunks with
  | [] => []
  | chunk :: _ =>
      let h := handleLine info (chunk.take (lineMaxLen - 1)) replySize
      let lines := h.logs.filterMap fun p =>
        match logrec p.1 p.2 with | .line bytes => some bytes | _ => none
      lines.mapIdx fun i line => .record line (v.answers i)

/-- The records and the reply of one connection, in the order of the source. -/
def Visit.events (info : Nat → Int × List Byte) (v : Visit) : List ServerEvent :=
  match replyTo info v.chunks with
  | none => []
  | some reply => v.records info ++ [.reply reply v.client]

end Vlog.Runner
