import Vlog.Runner.Ledger
import Vlog.Runner.Server
import Vlog.Runner.Lemmas.Protocol

/-!
# A runner that serves requests

The records that requests lead to, shipped one after the other with every byte marked by the number
of its record.
-/

namespace Vlog.Runner

open Vlog.Lib Vlog.Libc

def endsRecord (b : Nat × Byte) : Bool := b.2 == newline

/-- The numbers of the records whose last byte is among `bs`. -/
def recordEnds (bs : List (Nat × Byte)) : List Nat := (bs.filter endsRecord).map Prod.fst

/-- All that the connections opened so far have accepted, one connection after the other. -/
def Shipping.accepted {α : Type*} (w : Shipping α) : List α :=
  (List.range w.sink.opened).flatMap w.wire

/-- The sink and its connections, the records shipped so far and those of the request that is being
served. -/
structure Serving where
  ship : Shipping (Nat × Byte)
  logged : List (Int32 × List Byte)
  todo : List (Int32 × List Byte)

/-- `main` has bound its socket and logs that it runs. -/
def Serving.start (host : Option (List Byte)) (sinkPort : Nat) (port : UInt16) : Serving :=
  { ship := .start host sinkPort
    logged := []
    todo := [(logInfo, lit "function runner started on port " ++ fmtD port.toNat)] }

def Serving.next (r : Serving) (line : List Byte) : List (Nat × Byte) :=
  numbered r.logged.length line

/-- A request is read whole and smuggles no newline into a record, or the next record is logged. The
answers to the writes are sound. -/
inductive Serving.Step (info : Nat → Int × List Byte) : Serving → Serving → Prop
  | request {r} (request : List Byte) : r.todo = [] → request.length < lineMaxLen →
      ¬ Smuggles request →
      Step info r { r with todo := (handleLine info request replySize).logs }
  | log {r q rest line x t} : r.todo = q :: rest → logrec q.1 q.2 = .line line →
      logSinkEmit r.ship.sink (r.next line) x = some t → r.ship.Sound endsRecord (r.next line) x →
      Step info r
        { ship := r.ship.emitted endsRecord (r.next line) t
          logged := r.logged ++ [q]
          todo := rest }

end Vlog.Runner
