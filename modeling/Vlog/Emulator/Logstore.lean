import Vlog.Lib.Mutex
import Vlog.Libc.Number

/-!
# The log store (`emulator/logstore.c`)

`logstoreAppend` is the whole call on the contents of the log file. `Call.body` is the same call as
the list of stdio calls that it makes while it holds the store's mutex.
-/

namespace Vlog.Emulator

open Vlog.Lib Vlog.Libc

/-- The arguments of one `logstore_append`: `bytes` and `len` are the list and its length. -/
structure Record where
  seq : UInt32
  level : UInt32
  bytes : List Byte
  deriving DecidableEq

def levelName (level : UInt32) : List Byte :=
  match level.toNat with
  | 0 => lit "DEBUG"
  | 1 => lit "INFO"
  | 2 => lit "WARN"
  | 3 => lit "ERROR"
  | _ => lit "LVL?"

/-- The text of `fprintf(ls->f, "[%u] %s ", seq, level_name(level))`. -/
def Record.header (r : Record) : List Byte :=
  lit "[" ++ fmtU r.seq ++ lit "] " ++ levelName r.level ++ lit " "

structure Logstore where
  file : List Byte
  deriving DecidableEq

def logstoreOpen : Logstore := { file := [] }

def logstoreAppend (ls : Logstore) (r : Record) : Logstore :=
  let f := ls.file ++ r.header
  let f := if r.bytes.length ≠ 0 then f ++ r.bytes else f
  { file := f ++ [newline] }

def Record.text (r : Record) : List Byte := r.header ++ r.bytes ++ [newline]

@[simp] theorem logstoreAppend_file (ls : Logstore) (r : Record) :
    (logstoreAppend ls r).file = ls.file ++ r.text := by
  unfold logstoreAppend Record.text
  by_cases h : r.bytes = [] <;> simp [h]

/-! ## The calls on one shared `FILE` -/

/-- A stdio stream: what the file holds, and what is still in the stream's buffer. -/
structure Stream where
  file : List Byte
  buf : List Byte

/-- A stdio output call. The stream may write out any part of its buffer on the way. -/
def Stream.put (bs : List Byte) (f g : Stream) : Prop :=
  ∃ k, g = { file := f.file ++ (f.buf ++ bs).take k, buf := (f.buf ++ bs).drop k }

def Stream.fflush (f g : Stream) : Prop := g = { file := f.file ++ f.buf, buf := [] }

inductive Call
  | append (r : Record)
  | flush

/-- The stdio calls between `pthread_mutex_lock` and `pthread_mutex_unlock`. -/
def Call.body : Call → List (Stream → Stream → Prop)
  | .append r =>
      [Stream.put r.header] ++
      (if r.bytes.length ≠ 0 then [Stream.put r.bytes] else []) ++
      [Stream.put [newline], Stream.fflush]
  | .flush => [Stream.fflush]

abbrev Producers (ι : Type*) := Mutex.State ι Call Stream

def Producers.start {ι : Type*} (calls : ι → List Call) : Producers ι :=
  Mutex.State.start { file := logstoreOpen.file, buf := [] } calls

abbrev Producers.Step {ι : Type*} [DecidableEq ι] :
    Producers ι → List (Mutex.Event ι Call) → Producers ι → Prop :=
  Mutex.Step Call.body

end Vlog.Emulator
