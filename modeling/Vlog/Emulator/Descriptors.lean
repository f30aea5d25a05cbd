import Vlog.Lib.Ownership
import Vlog.Emulator.Netlog

/-!
# The descriptors of the collector (`emulator/netlog.c`)

What each step of the listener does with descriptors, beside those that the system keeps for the process. The
numbers of closed ones are handed out again.
-/

namespace Vlog.Emulator

open Vlog.Lib

/-- `poll(pfds, nc + 1, 200)` -/
def Listener.pollActs (s : Listener) : List (Act Int) :=
  .use s.lfd :: (List.range s.nc).map fun i => .use (s.conns i).fd

/-- `for (int i = 0; i < nc; i++) close(conns[i].fd);` -/
def Listener.finishActs (s : Listener) : List (Act Int) :=
  (List.range s.nc).map fun i => .release (s.conns i).fd

/-- `if (drop) close(conns[i].fd);` -/
def Listener.settleActs (s : Listener) (i : Nat) (drop : Bool) : List (Act Int) :=
  if drop then [.release (s.conns i).fd] else []

/-- What `step` does with descriptors. At capacity, the newcomer is closed at once. -/
def Listener.fdActs (s : Listener) (x : Input) : List (Act Int) :=
  match s.pc, x with
  | .top, .stop => s.finishActs
  | .top, .pollFails eintr => s.pollActs ++ if eintr then [] else s.finishActs
  | .top, .poll _ stop => s.pollActs ++ if stop then s.finishActs else []
  | .accept, .accept fd =>
      if (s.pfds 0).revents &&& pollin ≠ 0 then
        .use s.lfd ::
          if 0 ≤ fd then .acquire fd :: if s.nc < nlMaxConn then [] else [.release fd] else []
      else []
  | .service i _, .serve data =>
      if i < s.nc then
        if (s.pfds (i + 1)).revents &&& pollin ≠ 0 then
          .use (s.conns i).fd :: s.settleActs i data.isNone
        else s.settleActs i (hangup (s.pfds (i + 1)).revents)
      else []
  | .feeding i _ re [], .next => s.settleActs i (hangup re)
  | _, _ => []

structure Ingest where
  l : Listener
  live : Finset Int

/-- Behind `netlog_start`, where the listening socket came to the descriptors there were. -/
def Ingest.start (l : Listener) (live : Finset Int) : Ingest := { l := l, live := insert l.lfd live }

/-- A step, in which the system hands out only a descriptor that is not live. -/
def Ingest.Step (s : Ingest) (as : List (Act Int)) (s' : Ingest) : Prop :=
  ∃ x es, step s.l x = some (s'.l, es) ∧ as = s.l.fdActs x ∧ Granted s.live as ∧ s'.live = Lib.live s.live as

def Ingest.exec (s : Ingest) : List Input → Option (Ingest × List (Act Int))
  | [] => some (s, [])
  | x :: xs => do
      let (l, _) ← step s.l x
      let as := s.l.fdActs x
      if Granted s.live as then
        let (u, bs) ← Ingest.exec { l := l, live := Lib.live s.live as } xs
        return (u, as ++ bs)
      else none

/-- `netlog_stop` behind `pthread_join`: `close(nl->lfd);` -/
def Listener.stopActs (s : Listener) : List (Act Int) := [.release s.lfd]

end Vlog.Emulator
