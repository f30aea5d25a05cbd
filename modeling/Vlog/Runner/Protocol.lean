import Vlog.Runner.LogSink

/-!
# The runner's protocol (`runner/runner.c`)

`handleLine` is `handle_line` on the bytes read from a client, with the reply, the calls of `logrec`
and the calls of `runner_on_invoke` that come of it.
-/

namespace Vlog.Runner

open Vlog.Lib Vlog.Libc

def logDebug : Int32 := 0
def logInfo : Int32 := 1
def logWarn : Int32 := 2
def logError : Int32 := 3

/-! ## The built-in functions -/

def runnerPlatformInfo (n : Nat) : Int × List Byte := (0, (vsnprintf n (lit "platform=posix")).2)

def countWords (inWord : Bool) (words : Nat) : List Byte → Nat
  | [] => words
  | b :: p =>
      if isspace b then countWords false words p
      else if inWord then countWords true words p
      else countWords true (words + 1) p

def fnWordcount (payload : List Byte) (n : Nat) : Int × List Byte :=
  (0, (vsnprintf n (fmtD (countWords false 0 payload))).2)

/-- The loop of `fn_sum`; `none` at a token that is not a number. A sum that `long long` cannot hold
is undefined in C, and wraps here. -/
def sumWords (total : Int64) (payload : List Byte) : Option Int64 :=
  let p := payload.dropWhile isspace
  if p = [] then some total
  else
    let v := strtoll p
    if v.2 = 0 then none
    else sumWords (total + Int64.ofInt v.1) (p.drop v.2)
termination_by payload.length
decreasing_by
  have hdrop : (payload.dropWhile isspace).length ≤ payload.length :=
    (List.dropWhile_suffix isspace).length_le
  have hpos : 0 < (payload.dropWhile isspace).length := List.length_pos_iff.mpr ‹_›
  have hused : (strtoll (payload.dropWhile isspace)).2 ≠ 0 := ‹_›
  rw [List.length_drop]
  omega

def fnSum (payload : List Byte) (n : Nat) : Int × List Byte :=
  match sumWords 0 payload with
  | none => (-1, (vsnprintf n (lit "not a number")).2)
  | some total => (0, (vsnprintf n (fmtD total.toInt)).2)

def funcs : List (List Byte × (List Byte → Nat → Int × List Byte)) :=
  [(lit "wordcount", fnWordcount), (lit "sum", fnSum)]

/-! ## One request -/

structure Handled where
  reply : List Byte
  logs : List (Int32 × List Byte)
  invoked : List (List Byte)

def nameSize : Nat := 64

def outSize : Nat := 256

/-- `off += snprintf(reply + off, rn - off, ...)` where `off < rn`. -/
def appendText (rn : Nat) (r : List Byte × Nat) (text : List Byte) : List Byte × Nat :=
  if r.2 < rn then (r.1 ++ (vsnprintf (rn - r.2) text).2, r.2 + text.length) else r

/-- The name and the payload of a line that starts with `RUN `. -/
def splitRun (line : List Byte) : List Byte × List Byte :=
  let rest := (line.drop 4).dropWhile (· == space)
  match strchr rest space with
  | some i => ((rest.take i).take (nameSize - 1), rest.drop (i + 1))
  | none => (rest.take (nameSize - 1), [])

def runFunction (name payload : List Byte) (rn : Nat) : Handled :=
  match funcs.find? fun f => f.1 = name with
  | some f =>
      let r := f.2 payload outSize
      let invoke := (logInfo, lit "invoke " ++ name)
      if r.1 ≠ 0 then
        { reply := (vsnprintf rn (lit "ERR " ++ r.2 ++ [newline])).2
          logs := [invoke, (logError, name ++ lit " failed: " ++ r.2)]
          invoked := [] }
      else
        { reply := (vsnprintf rn (lit "OK " ++ r.2 ++ [newline])).2
          logs := [invoke, (logInfo, name ++ lit " -> " ++ r.2)]
          invoked := [name] }
  | none =>
      { reply := (vsnprintf rn (lit "ERR no such function" ++ [newline])).2
        logs := [(logWarn, lit "no such function: " ++ name)]
        invoked := [] }

/-- `handle_line(line, reply, rn)` where `read` stored `request`, followed by a NUL, in `line`. The
hook `runner_platform_info` is a parameter. -/
def handleLine (info : Nat → Int × List Byte) (request : List Byte) (rn : Nat) : Handled :=
  let line := stripEnd (cstr request)
  if line = lit "PING" then
    { reply := (vsnprintf rn (lit "PONG" ++ [newline])).2
      logs := [(logDebug, lit "ping")]
      invoked := [] }
  else if line = lit "INFO" then
    let r := info outSize
    let text := if r.1 ≠ 0 then (vsnprintf outSize (lit "unavailable")).2 else r.2
    { reply := (vsnprintf rn (lit "OK " ++ text ++ [newline])).2
      logs := [(logDebug, lit "info")]
      invoked := [] }
  else if line = lit "FUNCS" then
    let r := appendText rn ([], 0) (lit "OK")
    let r := funcs.foldl (fun r f => appendText rn r (lit " " ++ f.1)) r
    { reply := (appendText rn r [newline]).1
      logs := [(logDebug, lit "funcs")]
      invoked := [] }
  else if line.take 4 = lit "RUN " then
    let r := splitRun line
    runFunction r.1 r.2 rn
  else
    { reply := (vsnprintf rn (lit "ERR bad command" ++ [newline])).2
      logs := [(logWarn, lit "bad command")]
      invoked := [] }

def logStream (logs : List (Int32 × List Byte)) : List Byte :=
  logs.flatMap fun p => match logrec p.1 p.2 with | .line bytes => bytes | _ => []

end Vlog.Runner
