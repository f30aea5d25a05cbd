import Vlog.Libc.Number

/-!
# Logging in the runner (`runner/runner.c`)

`logrec` formats a record, and `log_sink_emit` ships it to a collector over a non-blocking socket.
What `socket`, `connect` and `write` answer, and the `errno` that the code then looks at, are inputs.
The sink never looks at the bytes it ships, so it is written for any type of symbols.
-/

namespace Vlog.Runner

open Vlog.Lib Vlog.Libc

def lineMaxLen : Nat := 4096

/-! ## Addresses -/

def dot : Byte := 46

/-- The inner loop of `parse_ipv4`: the octet, and the string behind it. -/
def parseOctet (octet : Nat) : List Byte → Option (Nat × List Byte)
  | [] => some (octet, [])
  | c :: s =>
      if isDigit c then
        let octet := octet * 10 + (c.toNat - 48)
        if 255 < octet then none else parseOctet octet s
      else some (octet, c :: s)

/-- The last `k` of the four rounds of `parse_ipv4`'s outer loop; round `k = 4` is that of `i = 0`. -/
def parseOctets : Nat → UInt32 → List Byte → Option (UInt32 × List Byte)
  | 0, v, s => some (v, s)
  | k + 1, v, s =>
      let rest := if k + 1 ≠ 4 then (if s.head? = some dot then some s.tail else none) else some s
      match rest with
      | some (c :: s) =>
          if isDigit c then
            match parseOctet 0 (c :: s) with
            | some (octet, s) => parseOctets k ((v <<< 8) ||| UInt32.ofNat octet) s
            | none => none
          else none
      | _ => none

def parseIpv4 (s : List Byte) : Option UInt32 :=
  match parseOctets 4 0 s with
  | some (v, []) => some v
  | _ => none

/-! ## The sink -/

inductive Errno
  | eagain
  | ewouldblock
  | enotconn
  | einprogress
  | ealready
  | other (code : Nat)
  deriving DecidableEq

/-- The static variables of the log sink. `fd` is the number of a connection of the run in place of
its descriptor, and `opened`, which is not in the code, counts these connections. -/
structure LogSink (α : Type*) where
  host : Option (List Byte)
  port : Nat
  fd : Option Nat
  skip : Nat
  backoff : Nat
  pend : List α
  opened : Nat
  deriving DecidableEq

def LogSink.start {α : Type*} (host : Option (List Byte)) (port : Nat) : LogSink α :=
  { host := host, port := port, fd := none, skip := 0, backoff := 1, pend := [], opened := 0 }

inductive LogEvent (α : Type*)
  | connect (ip : UInt32) (port : UInt16)
  | write (conn : Nat) (bytes : List α)
  | close (conn : Nat)
  deriving DecidableEq

/-- Whether `socket` gives a descriptor, whether `connect` returns 0, and `errno` behind it. -/
structure ConnectAnswer where
  socket : Bool
  connected : Bool
  errno : Errno

/-- `write` accepts `w` bytes, which leaves `errno` with any value, or fails. -/
inductive WriteAnswer
  | wrote (w : Nat) (errno : Errno)
  | failed (errno : Errno)

structure Answers where
  connect : ConnectAnswer
  flush : WriteAnswer
  direct : WriteAnswer

def logBackoffMax : Nat := 64

def logPendSize : Nat := 2048

variable {α : Type*}

def logSinkConnect (s : LogSink α) (x : ConnectAnswer) : Bool × List (LogEvent α) :=
  match s.host with
  | none => (false, [])
  | some host =>
      match parseIpv4 host with
      | none => (false, [])
      | some ip =>
          if x.socket then
            (x.connected || x.errno = .einprogress || x.errno = .ewouldblock || x.errno = .ealready,
              [.connect ip (UInt16.ofNat s.port)])
          else (false, [])

def logPend (s : LogSink α) (line : List α) : LogSink α :=
  if logPendSize < s.pend.length + line.length then s else { s with pend := s.pend ++ line }

def logWouldBlock (errno : Errno) : Bool :=
  errno = .eagain || errno = .ewouldblock || errno = .enotconn || errno = .einprogress

/-- `g_log_skip = g_log_backoff; if (g_log_backoff < LOG_BACKOFF_MAX) g_log_backoff *= 2;` -/
def LogSink.backOff (s : LogSink α) : LogSink α :=
  { s with
    skip := s.backoff
    backoff := if s.backoff < logBackoffMax then s.backoff * 2 else s.backoff }

def logSinkDrop (s : LogSink α) : LogSink α := { s with fd := none }.backOff

/-- `if (!log_would_block()) log_sink_drop();` -/
def LogSink.keepOrDrop (s : LogSink α) (c : Nat) (errno : Errno) :
    LogSink α × List (LogEvent α) :=
  if logWouldBlock errno then (s, []) else (logSinkDrop s, [.close c])

/-- The last write of `log_sink_emit`, that of the line itself; `none` where the answer is not one
that `write` can give. -/
def LogSink.writeLine (s : LogSink α) (c : Nat) (line : List α) (x : WriteAnswer) :
    Option (LogSink α × List (LogEvent α)) :=
  match x with
  | .wrote w errno =>
      if 0 < w ∧ w ≤ line.length then
        if w = line.length then some (s, [.write c line])
        else
          let r := s.keepOrDrop c errno
          some (logPend r.1 line, .write c (line.take w) :: r.2)
      else none
  | .failed errno =>
      let r := s.keepOrDrop c errno
      some (logPend r.1 line, r.2)

def LogSink.send (s : LogSink α) (c : Nat) (line : List α) (x : Answers) :
    Option (LogSink α × List (LogEvent α)) :=
  if s.pend.length ≠ 0 then
    match x.flush with
    | .wrote w _ =>
        if 0 < w ∧ w ≤ s.pend.length then
          if w = s.pend.length then
            let t : LogSink α := { s with pend := [] }
            (t.writeLine c line x.direct).map fun r => (r.1, .write c s.pend :: r.2)
          else
            some (logPend { s with pend := s.pend.drop w } line, [.write c (s.pend.take w)])
        else none
    | .failed errno =>
        let r := s.keepOrDrop c errno
        some (logPend r.1 line, r.2)
  else s.writeLine c line x.direct

def logSinkEmit (s : LogSink α) (line : List α) (x : Answers) :
    Option (LogSink α × List (LogEvent α)) :=
  if s.host.isNone then some (s, [])
  else match s.fd with
    | some c => s.send c line x
    | none =>
        if 0 < s.skip then some (logPend { s with skip := s.skip - 1 } line, [])
        else
          let r := logSinkConnect s x.connect
          if r.1 then
            let t : LogSink α :=
              { s with fd := some s.opened, opened := s.opened + 1, backoff := 1 }
            (t.send s.opened line x).map fun u => (u.1, r.2 ++ u.2)
          else some (logPend s.backOff line, r.2)

/-! ## Records -/

/-- What comes of a call of `logrec`: the line that goes to stdout and to the sink, nothing, or the
undefined `n += m` of an `int` that cannot hold the sum. -/
inductive Logged
  | line (bytes : List Byte)
  | nothing
  | overflow
  deriving DecidableEq

/-- `logrec(level, fmt, ...)` where the format and its arguments give `text`. -/
def logrec (level : Int32) (text : List Byte) : Logged :=
  let head := vsnprintf lineMaxLen (fmtD level.toInt ++ [space])
  if head.1 < 0 ∨ lineMaxLen ≤ head.1 then .nothing
  else
    let n := head.1.toNat
    let tail := vsnprintf (lineMaxLen - n) text
    if tail.1 < 0 then .nothing
    else if intMax < head.1 + tail.1 then .overflow
    else
      let n := n + tail.1.toNat
      let n := if lineMaxLen - 2 < n then lineMaxLen - 2 else n
      .line ((head.2 ++ tail.2).take n ++ [newline])

end Vlog.Runner
