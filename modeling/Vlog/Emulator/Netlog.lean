import Vlog.Lib.Framing
import Vlog.Emulator.Logstore

/-!
# The network collector (`emulator/netlog.c`)

The listener thread as a machine: `step` takes what the operating system answers and what another
thread stores in `stop`, and gives the next state with the events of the step.
-/

namespace Vlog.Emulator

open Vlog.Lib Vlog.Libc

def nlLineMax : Nat := 4200
def nlMaxConn : Nat := 64

/-- The fields of `struct netlog` that the listener changes, with the store as it stands. -/
structure Netlog where
  store : Logstore
  seq : UInt32
  deriving DecidableEq

def netlogStart (store : Logstore) : Netlog := { store := store, seq := 0 }

/-- `struct conn`. `buf` holds the bytes `buf[0..len)`; `serial` is not in the code and tells the
connections of a run apart, whose descriptors the system may use again. -/
structure Conn where
  fd : Int
  buf : List Byte
  serial : Nat
  deriving DecidableEq

def Conn.len (c : Conn) : Nat := c.buf.length

/-- The level and the message that `process_line` finds in a line buffer. -/
def parseLine (line : List Byte) : UInt32 × List Byte :=
  let s := cstr line
  match strchr s space with
  | some i => ((strtoul (s.take i)).toUInt32, s.drop (i + 1))
  | none => ((strtoul s).toUInt32, [])

def processLine (nl : Netlog) (line : List Byte) : Netlog × Record :=
  let r : Record := { seq := nl.seq, level := (parseLine line).1, bytes := (parseLine line).2 }
  ({ store := logstoreAppend nl.store r, seq := nl.seq + 1 }, r)

inductive Event
  | read (serial : Nat) (bytes : List Byte)
  | line (serial : Nat) (line : List Byte) (r : Record)
  | close (serial : Nat)
  deriving DecidableEq

/-- One iteration of the loop of `feed`. -/
def feedByte (nl : Netlog) (c : Conn) (ch : Byte) : Netlog × Conn × List Event :=
  if ch = newline then
    let p := processLine nl c.buf
    (p.1, { c with buf := [] }, [.line c.serial c.buf p.2])
  else if c.len < nlLineMax - 1 then
    (nl, { c with buf := c.buf ++ [ch] }, [])
  else
    let p := processLine nl c.buf
    (p.1, { c with buf := [ch] }, [.line c.serial c.buf p.2])

def feed (nl : Netlog) (c : Conn) : List Byte → Netlog × Conn × List Event
  | [] => (nl, c, [])
  | ch :: data =>
      let r := feedByte nl c ch
      let t := feed r.1 r.2.1 data
      (t.1, t.2.1, r.2.2 ++ t.2.2)

/-! ## The listener -/

def pollin : UInt16 := 0x001
def pollerr : UInt16 := 0x008
def pollhup : UInt16 := 0x010
def pollnval : UInt16 := 0x020

/-- `struct pollfd`; `events` is `POLLIN` in every entry. -/
structure Pollfd where
  fd : Int
  revents : UInt16
  deriving DecidableEq

/-- Where the listener is in its loop. -/
inductive Pc
  | top
  | accept
  | service (i keep : Nat)
  | feeding (i keep : Nat) (re : UInt16) (data : List Byte)
  | done
  deriving DecidableEq

/-- The listener's locals. `accepted` and `polled` are not in the code: the number of connections
taken into `conns` so far, and the serial and reported `revents` of each connection of the last
`poll`. -/
structure Listener where
  lfd : Int
  nl : Netlog
  conns : Nat → Conn
  pfds : Nat → Pollfd
  nc : Nat
  pc : Pc
  accepted : Nat
  polled : List (Nat × UInt16)

/-- `listener` as it is entered: the arrays on its stack hold anything. -/
def listenerStart (lfd : Int) (store : Logstore) (conns : Nat → Conn) (pfds : Nat → Pollfd) :
    Listener :=
  { lfd := lfd, nl := netlogStart store, conns := conns, pfds := pfds, nc := 0, pc := .top,
    accepted := 0, polled := [] }

/-- What the environment decides in a step. -/
inductive Input
  | stop
  | pollFails (eintr : Bool)
  -- With the value of `stop` that is loaded again behind `poll`.
  | poll (revents : Nat → UInt16) (stop : Bool)
  | accept (fd : Int)
  -- `none` for the end of the file and for an error.
  | serve (data : Option (List Byte))
  | next

def Listener.fillPfds (s : Listener) : Listener :=
  { s with pfds := fun k =>
      if k = 0 then { fd := s.lfd, revents := 0 }
      else if k ≤ s.nc then { fd := (s.conns (k - 1)).fd, revents := 0 }
      else s.pfds k }

/-- `poll(pfds, nc + 1, 200)` writes `revents` of the entries it is passed. -/
def Listener.report (s : Listener) (revents : Nat → UInt16) : Listener :=
  { s with
    pfds := fun k => if k ≤ s.nc then { s.pfds k with revents := revents k } else s.pfds k
    polled := (List.range s.nc).map fun i => ((s.conns i).serial, revents (i + 1)) }

/-- The loop is left, and the connections still open are closed. -/
def Listener.finish (s : Listener) : Listener × List Event :=
  ({ s with pc := .done }, (List.range s.nc).map fun i => .close (s.conns i).serial)

def Listener.store (s : Listener) (fd : Int) : Listener :=
  { s with
    conns := Function.update s.conns s.nc { fd := fd, buf := [], serial := s.accepted }
    nc := s.nc + 1
    accepted := s.accepted + 1 }

/-- `if (re & (POLLHUP | POLLERR | POLLNVAL)) drop = 1;` -/
def hangup (re : UInt16) : Bool := re &&& (pollhup ||| pollerr ||| pollnval) ≠ 0

def Listener.settle (s : Listener) (i keep : Nat) (drop : Bool) : Listener × List Event :=
  if drop then ({ s with pc := .service (i + 1) keep }, [.close (s.conns i).serial])
  else
    ({ s with conns := Function.update s.conns keep (s.conns i), pc := .service (i + 1) (keep + 1) },
      [])

/-- One step of `listener`; `none` where the input is not one that the code asks for there, or one
that `read` cannot give. -/
def step (s : Listener) (x : Input) : Option (Listener × List Event) :=
  match s.pc, x with
  | .top, .stop => some s.finish
  | .top, .pollFails eintr =>
      if eintr then some (s.fillPfds, []) else some s.fillPfds.finish
  | .top, .poll revents stop =>
      let s := s.fillPfds.report revents
      if stop then some s.finish else some ({ s with pc := .accept }, [])
  | .accept, .accept fd =>
      let s' :=
        if (s.pfds 0).revents &&& pollin ≠ 0 ∧ 0 ≤ fd ∧ s.nc < nlMaxConn then s.store fd else s
      some ({ s' with pc := .service 0 0 }, [])
  | .service i keep, .serve data =>
      if i < s.nc then
        let re := (s.pfds (i + 1)).revents
        if re &&& pollin ≠ 0 then
          match data with
          | none => some (s.settle i keep true)
          | some bytes =>
              if 0 < bytes.length ∧ bytes.length ≤ 2048 then
                some ({ s with pc := .feeding i keep re bytes }, [.read (s.conns i).serial bytes])
              else none
        else some (s.settle i keep (hangup re))
      else some ({ s with nc := keep, pc := .top }, [])
  | .feeding i keep re data, .next =>
      match data with
      | [] => some (s.settle i keep (hangup re))
      | ch :: data =>
          let r := feedByte s.nl (s.conns i) ch
          some
            ({ s with
                nl := r.1
                conns := Function.update s.conns i r.2.1
                pc := .feeding i keep re data },
              r.2.2)
  | _, _ => none

def Step (s : Listener) (es : List Event) (t : Listener) : Prop := ∃ x, step s x = some (t, es)

def exec (s : Listener) : List Input → Option (Listener × List Event)
  | [] => some (s, [])
  | x :: xs => do
      let (t, es) ← step s x
      let (u, fs) ← exec t xs
      return (u, es ++ fs)

/-- The entries of `pfds` that the step from here uses. -/
def Listener.pfdsUsed (s : Listener) : List Nat :=
  match s.pc with
  | .top => List.range (s.nc + 1)
  | .accept => [0]
  | .service i _ => if i < s.nc then [i + 1] else []
  | .feeding .. | .done => []

end Vlog.Emulator
