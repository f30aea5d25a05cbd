import Vlog.Emulator.Theorems
import Vlog.Runner.Theorems
import Vlog.System.Lemmas.Fleet

/-!
# The guarantees of the logging system

What the collector's file holds of the records that runners log.
-/

namespace Vlog.System

open Vlog.Lib Vlog.Libc Vlog.Runner Vlog.Emulator

variable {ι : Type*} [DecidableEq ι] {info : Nat → Int × List Byte} {owner : Nat → Option (ι × Nat)}
  {hosts : ι → Option (List Byte)} {sinkPorts : ι → Nat} {ports : ι → UInt16} {lfd : Int}
  {conns : Nat → Conn} {pfds : Nat → Pollfd}

def Fleet.entry (s : Fleet ι) (i : ι) (n : Nat) : Option (UInt32 × List Byte) :=
  (s.runners i).logged[n]?.map fun q => (q.1.toUInt32, q.2)

/-- However runners, connections and the collector take their turns: the records made of a runner's
connection are those whose lines have been fed, unchanged and in order; a record is delivered on one
of the runner's connections at most, and later ones on no earlier connection; and the file decodes to
what was recorded. Once a connection has been read to its end, every record that a write accepted to
the end is there. -/
theorem fleet_delivery {es : List Event} {s : Fleet ι}
    (hr : Run (Fleet.Step info owner)
      (Fleet.start (fun i => Serving.start (hosts i) (sinkPorts i) (ports i))
        (listenerStart lfd logstoreOpen conns pfds)) es s) :
    (∀ k i c, owner k = some (i, c) →
      ((recordsOf k es).map fun r => some (r.level, r.bytes)) =
          (s.delivered k (i, c) es).map (s.entry i) ∧
        (s.delivered k (i, c) es).Pairwise (· < ·) ∧
        (s.world.sent k = (s.wire (i, c)).map Prod.snd → s.world.rx k = [] →
          s.world.l.abs.unfed = none → s.delivered k (i, c) es = recordEnds (s.wire (i, c)))) ∧
    (∀ k k' i c c', owner k = some (i, c) → owner k' = some (i, c') → c < c' →
      ∀ n ∈ s.delivered k (i, c) es, ∀ m ∈ s.delivered k' (i, c') es, n < m) ∧
    decodeLog s.world.l.nl.store.file = some ((records es).map Record.entry) := by
  have hinv := Fleet.runners_inv (fun i => Serving.start_inv (hosts i) (sinkPorts i) (ports i)) hr
  refine ⟨?_, ?_, ?_⟩
  · intro k i c hk
    obtain ⟨hbytes, hrecords⟩ := Fleet.connection hr hk
    obtain ⟨ps, t, hfront⟩ := front_of_wire (hinv i) (List.take_prefix (s.fed k es) (s.wire (i, c)))
    have hps : s.delivered k (i, c) es = ps.map Prod.fst := hfront.ends
    refine ⟨?_, ?_, ?_⟩
    · have hsome := congrArg (List.map some) hrecords
      rw [hfront.framing (hinv i), List.map_map, List.map_map] at hsome
      rw [hps, List.map_map]
      refine hsome.trans (List.map_congr_left fun p hp => ?_)
      simp [Fleet.entry, hfront.logged p hp]
    · exact (hinv i).front_sorted c _
    · intro hsent hrx hunfed
      have hall := World.conserved (Fleet.world_run hr) k
      rw [hsent, hrx, List.append_nil] at hall
      have hlen : s.fed k es = (s.wire (i, c)).length := by
        have hl := congrArg List.length hall
        rw [List.length_map] at hl
        simp [Fleet.fed, hunfed, unfedOf, ← hl]
      rw [Fleet.delivered, hlen, List.take_length]
  · intro k k' i c c' _ _ hc n hn m hm
    exact (hinv i).wires_sorted.2 c c' hc n (recordEnds_take hn) m (recordEnds_take hm)
  · have hcol := listener_refines (World.listener_run (Fleet.world_run hr))
    have hfile := (Collector.run_numbered hcol).file
    have hnl : s.world.l.abs.nl.store.file = s.world.l.nl.store.file := rfl
    rw [← hnl, hfile]
    exact decodeLog_text (Collector.run_clean hcol)

/-- One runner, whose connections are the first two that the collector accepts. -/
def soleOwner (k : Nat) : Option (Unit × Nat) := if k < 2 then some ((), k) else none

def soleRunner : Unit → Serving := fun _ => Serving.start (some (lit "127.0.0.1")) 9099 9

def started : List Byte := lit "function runner started on port 9"

def startedLine : List Byte := lit "1 " ++ started ++ [newline]

def pingLine : List Byte := lit "0 ping" ++ [newline]

def pingLines : List Byte := pingLine ++ pingLine ++ pingLine

theorem ping_served {r : Serving} {x : Answers} {t : LogSink (Nat × Byte) × List (LogEvent (Nat × Byte))}
    (htodo : r.todo = []) (hemit : logSinkEmit r.ship.sink (r.next pingLine) x = some t)
    (hsound : r.ship.Sound endsRecord (r.next pingLine) x) :
    Relation.ReflTransGen (Serving.Step runnerPlatformInfo) r
      { ship := r.ship.emitted endsRecord (r.next pingLine) t
        logged := r.logged ++ [(logDebug, lit "ping")]
        todo := [] } := by
  have hlogs : (handleLine runnerPlatformInfo (lit "PING" ++ [newline]) replySize).logs =
      [(logDebug, lit "ping")] := rfl
  have hline : logrec logDebug (lit "ping") = .line pingLine := logrec_fits (by decide)
  have hrequest : Serving.Step runnerPlatformInfo r _ := .request (lit "PING" ++ [newline]) htodo
    (by decide) fun h => absurd ((smuggles_iff _).mp h).1 (by decide)
  rw [hlogs] at hrequest
  exact .tail (.single hrequest) (.log (x := x) rfl hline hemit hsound)

/-- The first record is accepted whole. The connection is reset at the next one, which goes out on a second
connection with those behind it. -/
theorem soleRunner_serves : ∃ r, Relation.ReflTransGen (Serving.Step runnerPlatformInfo) (soleRunner ()) r ∧
    r.ship.wire 0 = numbered 0 startedLine ∧
    r.ship.wire 1 = numbered 1 pingLine ++ numbered 2 pingLine ++ numbered 3 pingLine := by
  have hline : logrec logInfo started = .line startedLine := logrec_fits (by decide)
  have h₁ : Relation.ReflTransGen (Serving.Step runnerPlatformInfo) (soleRunner ()) _ := .single
    (.log (x := connecting (.wrote 36 .einprogress)) rfl hline rfl
      ⟨by
        rintro k errno ⟨⟩ hlt
        exact absurd hlt (by decide), by rintro c errno ⟨⟩⟩)
  have h₂ := h₁.trans (ping_served (x := flushing (.failed (.other 104)) (.failed (.other 104))) rfl rfl
    ⟨by rintro k errno ⟨⟩, fun c errno _ hp => absurd rfl hp⟩)
  have h₃ := h₂.trans (ping_served (x := flushing (.failed (.other 104)) (.failed (.other 104))) rfl rfl
    ⟨by rintro k errno ⟨⟩, by rintro c errno ⟨⟩⟩)
  have h₄ := h₃.trans (ping_served
    (x := { connecting (.wrote 7 .einprogress) with flush := .wrote 14 .einprogress }) rfl rfl
    ⟨by
      rintro k errno ⟨⟩ hlt
      exact absurd hlt (by decide), by rintro c errno ⟨⟩⟩)
  exact ⟨_, h₄, rfl, rfl⟩

/-- On both connections has arrived no more than the runner wrote. -/
theorem soleOwner_carried {r : Serving} {w : World} (hwire₀ : (r.ship.wire 0).map Prod.snd = startedLine)
    (hwire₁ : (r.ship.wire 1).map Prod.snd = pingLines) (hw₀ : w.sent 0 <+: startedLine)
    (hw₁ : w.sent 1 <+: pingLines) : Fleet.Carried soleOwner { runners := fun _ => r, world := w } := by
  intro k p hp
  obtain ⟨hk, rfl⟩ : k < 2 ∧ ((), k) = p := by simpa [soleOwner] using hp
  obtain rfl | rfl : k = 0 ∨ k = 1 := by omega
  · simpa [Fleet.wire, hwire₀] using hw₀
  · simpa [Fleet.wire, hwire₁] using hw₁

/-- The collector takes both connections, reads the first and feeds it, and then the second. -/
theorem both_fed : ∃ l₁ es₁ l₂ es₂ l₃ es₃,
    exec demoStart (accepting ++
      [.poll (fun k => if k ≤ 1 then pollin else 0) false, .accept 6]) = some (l₁, es₁) ∧
    (∀ k, bytesOf k es₁ = []) ∧ records es₁ = [] ∧
    Emulator.Step l₁ [.read 0 startedLine]
      { l₁ with pc := .feeding 0 0 (l₁.pfds 1).revents startedLine } ∧
    exec { l₁ with pc := .feeding 0 0 (l₁.pfds 1).revents startedLine } (List.replicate 37 .next ++
      [.serve none, .serve none, .poll (fun k => if k = 2 then pollin else 0) false, .accept (-1),
        .serve none]) = some (l₂, es₂) ∧
    (∀ k, bytesOf k es₂ = []) ∧ records es₂ = [⟨0, 1, started⟩] ∧
    Emulator.Step l₂ [.read 1 pingLines]
      { l₂ with pc := .feeding 1 1 (l₂.pfds 2).revents pingLines } ∧
    exec { l₂ with pc := .feeding 1 1 (l₂.pfds 2).revents pingLines } (List.replicate 22 .next) =
      some (l₃, es₃) ∧
    (∀ k, bytesOf k es₃ = []) ∧
    records es₃ = [⟨1, 0, lit "ping"⟩, ⟨2, 0, lit "ping"⟩, ⟨3, 0, lit "ping"⟩] ∧ l₃.abs.unfed = none :=
  ⟨_, _, _, _, _, _, rfl, fun _ => rfl, rfl, ⟨.serve (some startedLine), rfl⟩, rfl, fun _ => rfl, rfl,
    ⟨.serve (some pingLines), rfl⟩, rfl, fun _ => rfl, rfl, rfl⟩

/-- The runner logs its start on one connection and the requests it serves on the next; the collector reads and
feeds both. -/
theorem fleet_delivery_served : ∃ es s,
    Run (Fleet.Step runnerPlatformInfo soleOwner) (Fleet.start soleRunner demoStart) es s ∧
    decodeLog s.world.l.nl.store.file = some [⟨0, lit "INFO", started⟩, ⟨1, lit "DEBUG", lit "ping"⟩,
      ⟨2, lit "DEBUG", lit "ping"⟩, ⟨3, lit "DEBUG", lit "ping"⟩] ∧
    s.delivered 0 ((), 0) es = [0] ∧ s.delivered 1 ((), 1) es = [1, 2, 3] := by
  obtain ⟨r, hserves, hwire₀, hwire₁⟩ := soleRunner_serves
  obtain ⟨l₁, es₁, l₂, es₂, l₃, es₃, hopen, hno₁, hnone, hread₀, hfeed₀, hno₂, hrec₀, hread₁, hfeed₁, hno₃,
    hrec₁, hunfed⟩ := both_fed
  have hsnd₀ : (r.ship.wire 0).map Prod.snd = startedLine := by rw [hwire₀, numbered_snd]
  have hsnd₁ : (r.ship.wire 1).map Prod.snd = pingLines := by
    simp only [hwire₁, List.map_append, numbered_snd, pingLines]
  let s₁ : Fleet Unit := { runners := fun _ => r, world := .start demoStart }
  have h₀ : Run (Fleet.Step runnerPlatformInfo soleOwner) (Fleet.start soleRunner demoStart) [] s₁ := by
    have hrun : Run (Fleet.Step runnerPlatformInfo soleOwner) (Fleet.start soleRunner demoStart) [] _ :=
      Fleet.run_runner (i := ()) hserves
    rwa [show Function.update (Fleet.start soleRunner demoStart).runners () r = fun _ => r from
      funext fun _ => rfl] at hrun
  have h₁ := h₀.snoc (.collector (.arrive (k := 0) startedLine rfl)
    (soleOwner_carried hsnd₀ hsnd₁ (by simp [s₁, World.start]) (by simp [s₁, World.start])))
  have h₂ := h₁.snoc (.collector (.arrive (k := 1) pingLines rfl)
    (soleOwner_carried hsnd₀ hsnd₁ (by simp [s₁, World.start]) (by simp [s₁, World.start])))
  -- Nothing arrives from here on.
  have hsent : ∀ w : World, w.sent = Function.update (Function.update (fun _ => []) 0 startedLine) 1 pingLines →
      Fleet.Carried soleOwner { s₁ with world := w } := fun w hw =>
    soleOwner_carried hsnd₀ hsnd₁ (by simp [hw]) (by simp [hw])
  have h₃ := h₂.append (Fleet.run_listener (hsent _ rfl) (exec_run _ hopen) hno₁)
  have h₄ := h₃.snoc (.collector
    (.read hread₀ (show _ = startedLine ++ [] by simp [s₁, World.start])) (hsent _ rfl))
  have h₅ := h₄.append (Fleet.run_listener (hsent _ rfl) (exec_run _ hfeed₀) hno₂)
  have h₆ := h₅.snoc (.collector
    (.read hread₁ (show _ = pingLines ++ [] by simp [s₁, World.start])) (hsent _ rfl))
  have h₇ := h₆.append (Fleet.run_listener (hsent _ rfl) (exec_run _ hfeed₁) hno₃)
  obtain ⟨hconn, _, hfile⟩ := fleet_delivery h₇
  obtain ⟨_, _, hall₀⟩ := hconn 0 () 0 rfl
  obtain ⟨_, _, hall₁⟩ := hconn 1 () 1 rfl
  refine ⟨_, _, h₇, ?_, ?_, ?_⟩
  · rw [hfile]
    have hreads : ∀ k bytes, records [.read k bytes] = [] := fun _ _ => rfl
    simp only [records_append, hnone, hreads, hrec₀, hrec₁, List.nil_append]
    decide
  · rw [hall₀ (Eq.trans (by simp [s₁, World.start]) hsnd₀.symm) (by simp) hunfed]
    change recordEnds (r.ship.wire 0) = [0]
    rw [hwire₀]
    decide
  · rw [hall₁ (Eq.trans (by simp [s₁, World.start]) hsnd₁.symm) (by simp) hunfed]
    change recordEnds (r.ship.wire 1) = [1, 2, 3]
    rw [hwire₁]
    decide

end Vlog.System
