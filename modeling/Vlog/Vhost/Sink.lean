import Vlog.Emulator.LogFile

/-!
# The log sink of the virtio backend (`vhost/sink.c`)
-/

namespace Vlog.Vhost

open Vlog.Lib Vlog.Libc Vlog.Emulator

structure VlogSink where
  store : Logstore
  seq : UInt32
  deriving DecidableEq

def vlogSinkOpen : VlogSink := { store := logstoreOpen, seq := 0 }

/-- The level and the message of a record: a leading decimal 0..9 followed by a space, or INFO. -/
def splitLevel (p : List Byte) : UInt32 × List Byte :=
  match p with
  | d :: s :: rest => if isDigit d ∧ s = space then (UInt32.ofNat (d.toNat - 48), rest) else (1, p)
  | _ => (1, p)

def vlogSinkEmit (sink : VlogSink) (bytes : List Byte) : VlogSink × Option Record :=
  let p := stripEnd bytes
  if p = [] then (sink, none)
  else
    let r : Record := { seq := sink.seq, level := (splitLevel p).1, bytes := (splitLevel p).2 }
    ({ store := logstoreAppend sink.store r, seq := sink.seq + 1 }, some r)

/-! ## A sequence of chains -/

def vlogSinkEmits (chains : List (List Byte)) : VlogSink :=
  chains.foldl (fun sink bytes => (vlogSinkEmit sink bytes).1) vlogSinkOpen

/-- The bytes are not only carriage returns and newlines. -/
def Kept (bytes : List Byte) : Prop := ∃ b ∈ bytes, b ≠ newline ∧ b ≠ cr

instance : DecidablePred Kept := fun _ => inferInstanceAs (Decidable (∃ _, _ ∧ _))

/-- One entry for each chain that has something to keep, in their order and numbered from 0. -/
def chainEntries (chains : List (List Byte)) : List Entry :=
  (chains.filter Kept).mapIdx fun i bytes =>
    { seq := UInt32.ofNat i, level := levelName (splitLevel (stripEnd bytes)).1
      bytes := (splitLevel (stripEnd bytes)).2 }

end Vlog.Vhost
