import Vlog.Emulator.Netlog
import Vlog.Lib.Run
import Vlog.Lib.Slots

/-!
# The watch table and the poll loop (`vhost/backend.c`)

`set_watch` and `remove_watch` on the table `W`, and the loop of `main` that polls the descriptors watched
and calls back. What `vu_dispatch` and the callbacks do to the table is an input of the round.
-/

namespace Vlog.Vhost

open Vlog.Lib
open Vlog.Emulator (Pollfd pollin pollhup)

variable {κ δ : Type*}

def maxw : Nat := 32

structure Watch (κ δ : Type*) where
  fd : Int
  cb : κ
  data : δ
  deriving DecidableEq

/-- The entries `W[0..nW)`. -/
structure Watches (κ δ : Type*) where
  rows : List (Watch κ δ)
  fits : rows.length ≤ maxw

def Watches.empty : Watches κ δ := { rows := [], fits := Nat.zero_le _ }

def setWatch (w : Watches κ δ) (fd : Int) (cb : κ) (data : δ) : Watches κ δ :=
  match w.rows.findIdx? (Watch.fd · = fd) with
  | some i =>
      { rows := w.rows.modify i fun r => { r with cb := cb, data := data }
        fits := by simpa using w.fits }
  | none =>
      if h : w.rows.length < maxw then
        { rows := w.rows ++ [{ fd := fd, cb := cb, data := data }]
          fits := by simpa using h }
      else w

def removeWatch (w : Watches κ δ) (fd : Int) : Watches κ δ :=
  match w.rows.findIdx? (Watch.fd · = fd) with
  | some i => { rows := swapRemove w.rows i, fits := (swapRemove_length_le _ _).trans w.fits }
  | none => w

inductive WatchOp (κ δ : Type*)
  | set (fd : Int) (cb : κ) (data : δ)
  | remove (fd : Int)
  deriving DecidableEq

def Watches.apply (w : Watches κ δ) : WatchOp κ δ → Watches κ δ
  | .set fd cb data => setWatch w fd cb data
  | .remove fd => removeWatch w fd

def Watches.applyAll (w : Watches κ δ) (ops : List (WatchOp κ δ)) : Watches κ δ :=
  ops.foldl Watches.apply w

/-! ## One round of the loop -/

inductive WatchEvent (κ δ : Type*)
  | op (o : WatchOp κ δ)
  | call (fd : Int) (cb : κ) (data : δ)
  deriving DecidableEq

/-- What `poll` reports for `p[k]`, what `vu_dispatch` returns and calls, and what a callback made for
`p[k]` calls. -/
structure Round (κ δ : Type*) where
  revents : Nat → UInt16
  alive : Bool
  dispatch : List (WatchOp κ δ)
  answer : Nat → List (WatchOp κ δ)

/-- `p[1..n)` behind `poll`. -/
def Watches.polled (w : Watches κ δ) (x : Round κ δ) : List Pollfd :=
  w.rows.mapIdx fun i r => { fd := r.fd, revents := x.revents (i + 1) }

/-- The loop over `p[k..n)`. -/
def Watches.serve (answer : Nat → List (WatchOp κ δ)) (k : Nat) (ps : List Pollfd) (w : Watches κ δ) :
    Watches κ δ × List (WatchEvent κ δ) :=
  match ps with
  | [] => (w, [])
  | p :: ps =>
      if p.revents &&& pollin = 0 then w.serve answer (k + 1) ps
      else
        match w.rows.find? (Watch.fd · = p.fd) with
        | none => w.serve answer (k + 1) ps
        | some r =>
            let t := (w.applyAll (answer k)).serve answer (k + 1) ps
            (t.1, .call p.fd r.cb r.data :: ((answer k).map .op ++ t.2))

/-- `p[0].revents & (POLLIN | POLLHUP)` -/
def Round.dispatches (x : Round κ δ) : Bool := x.revents 0 &&& (pollin ||| pollhup) ≠ 0

def Round.dispatched (x : Round κ δ) : List (WatchOp κ δ) := if x.dispatches then x.dispatch else []

/-- One iteration of the loop that `poll` does not end; `none` where `vu_dispatch` reports that QEMU has
disconnected. -/
def Watches.round (w : Watches κ δ) (x : Round κ δ) : Option (Watches κ δ × List (WatchEvent κ δ)) :=
  if x.dispatches ∧ x.alive = false then none
  else
    let t := (w.applyAll x.dispatched).serve x.answer 1 (w.polled x)
    some (t.1, x.dispatched.map .op ++ t.2)

def Watches.Step (w : Watches κ δ) (es : List (WatchEvent κ δ)) (w' : Watches κ δ) : Prop :=
  ∃ x, w.round x = some (w', es)

/-! ## What a round is about -/

def opsOf (es : List (WatchEvent κ δ)) : List (WatchOp κ δ) :=
  es.filterMap fun | .op o => some o | .call .. => none

/-- The callbacks that a descriptor gets. -/
def callsOf (fd : Int) (es : List (WatchEvent κ δ)) : List (κ × δ) :=
  es.filterMap fun
    | .op _ => none
    | .call fd' cb data => if fd' = fd then some (cb, data) else none

/-- What is registered for a descriptor. -/
def Watches.registered (w : Watches κ δ) (fd : Int) : Option (κ × δ) :=
  (w.rows.find? (Watch.fd · = fd)).map fun r => (r.cb, r.data)

/-- The callback that an entry of the snapshot is to get from the table as it is. -/
def Watches.due (w : Watches κ δ) (p : Pollfd) : List (κ × δ) :=
  if p.revents &&& pollin = 0 then [] else (w.registered p.fd).toList

/-- The table, and the events of the round so far, when the turn comes of the entry behind `pre`. -/
def Watches.turn (w : Watches κ δ) (x : Round κ δ) (pre : List Pollfd) :
    Watches κ δ × List (WatchEvent κ δ) :=
  let t := (w.applyAll x.dispatched).serve x.answer 1 pre
  (t.1, x.dispatched.map .op ++ t.2)

/-! ## The table as a map -/

/-- The operation on a finite map from descriptors: insert or replace, and delete. -/
def WatchOp.onMap (m : Finmap fun _ : Int => κ × δ) : WatchOp κ δ → Finmap fun _ : Int => κ × δ
  | .set fd cb data => m.insert fd (cb, data)
  | .remove fd => m.erase fd

def watched (ops : List (WatchOp κ δ)) : Finmap fun _ : Int => κ × δ := ops.foldl WatchOp.onMap ∅

/-- At no time are more descriptors watched than the table has room for. -/
def WithinTable (ops : List (WatchOp κ δ)) : Prop :=
  ∀ front, front <+: ops → (watched front).keys.card ≤ maxw

def Watches.toMap (w : Watches κ δ) : Finmap fun _ : Int => κ × δ :=
  (w.rows.map fun r => (⟨r.fd, r.cb, r.data⟩ : Σ _ : Int, κ × δ)).toFinmap

end Vlog.Vhost
