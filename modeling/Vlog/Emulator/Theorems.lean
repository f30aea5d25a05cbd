import Vlog.Emulator.Levels
import Vlog.Emulator.LogFile
import Vlog.Emulator.Lemmas.Descriptors
import Vlog.Emulator.Lemmas.Attribution
import Vlog.Emulator.Lemmas.Sockets

/-!
# The guarantees of the emulator's log path

The log file and its producers, the levels of lines, the network collector over whole runs, and the two
places where the collector's service loop falls short of its comments.
-/

namespace Vlog.Emulator

open Vlog.Lib Vlog.Libc

/-! ## The log file -/

/-- The file that a list of appends makes is one line for each, and says which appends they were. -/
theorem logFile_decodable {rs : List Record} (h : ∀ r ∈ rs, newline ∉ r.bytes) :
    decodeLog (rs.foldl logstoreAppend logstoreOpen).file = some (rs.map Record.entry) ∧
    (rs.foldl logstoreAppend logstoreOpen).file.count newline = rs.length ∧
    ∀ rs' : List Record, (∀ r ∈ rs', newline ∉ r.bytes) →
      (rs'.foldl logstoreAppend logstoreOpen).file = (rs.foldl logstoreAppend logstoreOpen).file →
      rs'.map Record.entry = rs.map Record.entry := by
  have hfile : ∀ rs : List Record,
      (rs.foldl logstoreAppend logstoreOpen).file = rs.flatMap Record.text := by
    intro rs
    simp [foldl_logstoreAppend, logstoreOpen]
  simp only [hfile]
  refine ⟨decodeLog_text h, count_text h, ?_⟩
  intro rs' h' heq
  have hd := decodeLog_text h'
  rw [heq, decodeLog_text h] at hd
  exact (Option.some.inj hd).symm

def bracketed : List Record := [⟨4294967295, 7, lit "[1] INFO x"⟩, ⟨0, 1, []⟩]

theorem logFile_decodable_bracketed :
    decodeLog (bracketed.foldl logstoreAppend logstoreOpen).file =
      some [⟨4294967295, lit "LVL?", lit "[1] INFO x"⟩, ⟨0, lit "INFO", []⟩] := by
  have hclean : ∀ r ∈ bracketed, newline ∉ r.bytes := by decide
  exact (logFile_decodable hclean).1

/-- While no producer holds the lock, the file is the complete records of the completed appends in
the order of the lock, and each producer's calls took the lock in its own order. -/
theorem producers_atomic {ι : Type*} [DecidableEq ι] {calls : ι → List Call}
    {es : List (Mutex.Event ι Call)} {s : Producers ι}
    (hr : Run Producers.Step (Producers.start calls) es s) (hfree : s.owner = none) :
    s.shared.file = (appended (Mutex.unlocks es)).flatMap Record.text ∧ s.shared.buf = [] ∧
    Mutex.locks es = Mutex.unlocks es ∧
    ∀ i, calls i = Mutex.callsOf i (Mutex.unlocks es) ++ s.todo i := by
  obtain ⟨hlocks, hserial⟩ := Mutex.Run.serial hr hfree
  obtain ⟨hfile, hbuf⟩ := serial_file hserial
  refine ⟨hfile.trans (flatMap_callText _), hbuf, hlocks, ?_⟩
  intro i
  rw [← hlocks]
  exact Mutex.Run.programOrder hr i

def twoCalls : Bool → List Call
  | false => [.append ⟨0, 1, lit "a"⟩]
  | true => [.flush]

theorem producers_atomic_two : ∃ es s, Run Producers.Step (Producers.start twoCalls) es s ∧
    Mutex.unlocks es = [(false, .append ⟨0, 1, lit "a"⟩), (true, .flush)] ∧
    s.shared.file = lit "[0] INFO a" ++ [newline] := by
  have h₀ : Run Producers.Step (Producers.start twoCalls) [] (Producers.start twoCalls) := .refl
  have h₁ := h₀.snoc (.lock (i := false) rfl rfl rfl)
  have h₂ := h₁.snoc (.update (i := false) rfl ⟨0, rfl⟩)
  have h₃ := h₂.snoc (.update (i := false) rfl ⟨3, rfl⟩)
  have h₄ := h₃.snoc (.update (i := false) rfl ⟨0, rfl⟩)
  have h₅ := h₄.snoc (.update (i := false) rfl rfl)
  have h₆ := h₅.snoc (.unlock (i := false) rfl)
  have h₇ := h₆.snoc (.lock (i := true) rfl rfl rfl)
  have h₈ := h₇.snoc (.update (i := true) rfl rfl)
  have h₉ := h₈.snoc (.unlock (i := true) rfl)
  exact ⟨_, _, h₉, rfl, (producers_atomic h₉ rfl).1⟩

/-! ## Levels -/

/-- A line with a numeral for its level is appended with its message. Its level name is that of the
number exactly if the number is still named alike behind the saturation and the cast. -/
theorem feed_level {ds msg : List Byte} (hne : ds ≠ []) (hds : ∀ b ∈ ds, isDigit b = true)
    (hnul : nul ∉ msg) (hnl : newline ∉ msg) (hlen : (ds ++ space :: msg).length ≤ 4199)
    (nl : Netlog) (c : Conn) (hc : c.buf = []) :
    ∃ r, feed nl c (ds ++ space :: msg ++ [newline]) =
        ({ store := logstoreAppend nl.store r, seq := nl.seq + 1 }, c,
          [.line c.serial (ds ++ space :: msg) r]) ∧ r.seq = nl.seq ∧ r.bytes = msg ∧
      (levelName r.level = levelText (digitsValue ds) ↔ LevelKept (digitsValue ds)) := by
  have hnot : ∀ b, isDigit b = false → b ∉ ds := by
    intro b hb hmem
    rw [hds b hmem] at hb
    cases hb
  have hline : newline ∉ ds ++ space :: msg := by
    have hsp : newline ≠ space := by decide
    simp [hnot newline (by decide), hsp, hnl]
  have hparse : parseLine (ds ++ space :: msg) = ((strtoul ds).toUInt32, msg) := by
    rw [parseLine_space (hnot nul (by decide)) (hnot space (by decide)), cstr_of_not_mem hnul]
  refine ⟨{ seq := nl.seq, level := (strtoul ds).toUInt32, bytes := msg }, ?_, rfl, rfl,
    wireLevel_iff hne hds⟩
  rw [feed_line nl c hc hline hlen []]
  simp [processLine, hparse, feed]

/-- The cast makes 0 of 2^32, and the record says DEBUG. -/
theorem feed_level_cast :
    ¬ ∀ (ds msg : List Byte) (nl : Netlog) (c : Conn), ds ≠ [] → (∀ b ∈ ds, isDigit b = true) →
      nul ∉ msg → newline ∉ msg → (ds ++ space :: msg).length ≤ 4199 → c.buf = [] →
      ∃ r, records (feed nl c (ds ++ space :: msg ++ [newline])).2.2 = [r] ∧
        levelName r.level = levelText (digitsValue ds) := by
  intro h
  obtain ⟨r, hr, hname⟩ := h (lit "4294967296") (lit "x") (netlogStart logstoreOpen)
    { fd := 4, buf := [], serial := 0 } (by decide) (List.all_eq_true.mp (by decide)) (by decide)
    (by decide) (by simp [lit]) rfl
  have hfed : records (feed (netlogStart logstoreOpen) { fd := 4, buf := [], serial := 0 }
      (lit "4294967296" ++ space :: lit "x" ++ [newline])).2.2 = [⟨0, 0, lit "x"⟩] := by decide
  rw [hfed] at hr
  cases hr
  revert hname
  decide

theorem feed_level_leadingZeros : LevelKept (digitsValue (lit "0000000000000000000000002")) ∧
    ∃ r, records (feed (netlogStart logstoreOpen) { fd := 4, buf := [], serial := 0 }
        (lit "0000000000000000000000002" ++ space :: lit "x" ++ [newline])).2.2 = [r] ∧
      levelName r.level = lit "WARN" := by
  have hkept : LevelKept (digitsValue (lit "0000000000000000000000002")) := by decide
  have hne : lit "0000000000000000000000002" ≠ [] := by decide
  have hnul : nul ∉ lit "x" := by decide
  obtain ⟨r, hr, _, _, hiff⟩ := feed_level hne (List.all_eq_true.mp (by decide)) hnul (by decide)
    (by simp [lit]) (netlogStart logstoreOpen) { fd := 4, buf := [], serial := 0 } rfl
  refine ⟨hkept, r, ?_, ?_⟩
  · rw [hr]
    rfl
  · exact hiff.mpr hkept

/-! ## The collector over whole runs -/

variable {lfd : Int} {store : Logstore} {conns : Nat → Conn} {pfds : Nat → Pollfd}

/-- In every state that a run reaches, each connection's lines are the framing of its own bytes, the
records are numbered in the order of the appends, and the arrays are used inside their bounds. -/
theorem listener_invariants {es : List Event} {s : Listener}
    (hr : Run Step (listenerStart lfd store conns pfds) es s) :
    (∀ k, ∃ fed, bytesOf k es = fed ++ unfedOf k s.abs.unfed ∧
      linesOf k es = (framing newline lineBound fed).1) ∧
    ((∀ i r, (records es)[i]? = some r → r.seq = UInt32.ofNat i) ∧
      (∀ r ∈ records es, newline ∉ r.bytes) ∧
      s.nl.store.file = store.file ++ (records es).flatMap Record.text) ∧
    s.nc ≤ nlMaxConn ∧ (∀ j, j < s.nc → (s.conns j).len ≤ lineBound) ∧
    ∀ k ∈ s.pfdsUsed, k ≤ nlMaxConn := by
  have hrun := listener_refines hr
  have hslots := listener_slots hr
  have hnum := Collector.run_numbered hrun
  refine ⟨Collector.run_framing hrun, ⟨hnum.numbers, Collector.run_clean hrun, hnum.file⟩,
    hslots.nc_le, fun j hj => (hslots.bufs j hj).2, ?_⟩
  exact hslots.pfdsUsed_le

def accepting : List Input :=
  [.poll (fun k => if k = 0 then pollin else 0) false, .accept 5, .serve none, .serve none]

def reading (re : UInt16) (data : List Byte) : List Input :=
  [.poll (fun k => if k = 1 then re else 0) false, .accept (-1), .serve (some data)]

def emptyConns : Nat → Conn := fun _ => { fd := 0, buf := [], serial := 0 }

def zeroPfds : Nat → Pollfd := fun _ => { fd := 0, revents := 0 }

def demoStart : Listener := listenerStart 3 logstoreOpen emptyConns zeroPfds

theorem listener_invariants_split : ∃ es s, Run Step demoStart es s ∧
    linesOf 0 es = [lit "1 hi"] ∧ s.nl.store.file = lit "[0] INFO hi" ++ [newline] := by
  have hr := exec_run (s := demoStart) (accepting ++ reading pollin (lit "1 h") ++
    [.next, .next, .next, .next, .serve none] ++ reading pollin (lit "i" ++ [newline]) ++
    [.next, .next]) rfl
  obtain ⟨_, ⟨_, _, hfile⟩, _⟩ := listener_invariants hr
  exact ⟨_, _, hr, rfl, hfile⟩

/-! ## Which report the service loop acts on -/

/-- The loop acts on a report of the same round for the same connection in every run that takes no
connection into a slot with a flag left over, and in any state exactly if the connection being
served was polled or its entry has none. -/
theorem listener_attribution {es : List Event} {s : Listener}
    (hr : Run Step (listenerStart lfd store conns pfds) es s) :
    (Run QuietStep (listenerStart lfd store conns pfds) es s → s.Attributed) ∧
    (s.Attributed ↔ s.NewcomerQuiet) := by
  have hiff := (listener_tracked hr).attributed_iff (listener_slots hr)
  refine ⟨?_, hiff⟩
  intro hquiet
  exact hiff.mpr (listener_allQuiet hquiet).newcomerQuiet

/-- Connection 0 is polled, sends its end of file and is dropped. Connection 1 is then taken into
the same slot by a round whose `poll` was passed the listening socket alone. -/
def reusedSlot : List Input :=
  accepting ++
  [.poll (fun k => if k = 1 then pollin else 0) false, .accept (-1), .serve none, .serve none,
    .poll (fun k => if k = 0 then pollin else 0) false, .accept 6]

theorem listener_attribution_reusedSlot :
    ¬ ∀ lfd store conns pfds es s, Run Step (listenerStart lfd store conns pfds) es s →
      s.Attributed := by
  intro h
  have hr := exec_run (s := demoStart) reusedSlot rfl
  have hatt := h _ _ _ _ _ _ hr (by decide) (by decide)
  exact absurd hatt (by decide)

/-- Connection 0 is polled and acted on, and then comes the turn of connection 1, which the same round has taken
and not polled. -/
theorem listener_attribution_newcomer : ∃ es s fs t, Run QuietStep demoStart es s ∧
    s.turn = some 0 ∧ acts (s.pfds 1).revents ∧ s.Attributed ∧ s.NewcomerQuiet ∧
    Run QuietStep demoStart (es ++ fs) t ∧ fs = [.read 0 (lit "a")] ∧
    t.turn = some 1 ∧ t.nc = 2 ∧ t.polled = [(0, pollin)] ∧ t.Attributed ∧ t.NewcomerQuiet := by
  have h₀ : Run QuietStep demoStart [] demoStart := .refl
  have h₁ := h₀.snoc ⟨.poll (fun k => if k = 0 then pollin else 0) false, rfl, trivial⟩
  have h₂ := h₁.snoc ⟨.accept 5, rfl, fun _ _ _ _ => by decide⟩
  have h₃ := h₂.snoc ⟨.serve none, rfl, trivial⟩
  have h₄ := h₃.snoc ⟨.serve none, rfl, trivial⟩
  have h₅ := h₄.snoc ⟨.poll (fun _ => pollin) false, rfl, trivial⟩
  have hs := h₅.snoc ⟨.accept 6, rfl, fun _ _ _ _ => by decide⟩
  have h₆ := hs.snoc ⟨.serve (some (lit "a")), rfl, trivial⟩
  have h₇ := h₆.snoc ⟨.next, rfl, trivial⟩
  have ht := h₇.snoc ⟨.next, rfl, trivial⟩
  have hruns := hs.mono fun _ _ _ h => h.step
  have hrunt := ht.mono fun _ _ _ h => h.step
  have hatts := (listener_attribution hruns).1 hs
  have hattt := (listener_attribution hrunt).1 ht
  exact ⟨_, _, _, _, hs, rfl, by decide, hatts, (listener_attribution hruns).2.mp hatts, ht, rfl, rfl, rfl, rfl,
    hattt, (listener_attribution hrunt).2.mp hattt⟩

/-! ## What a close loses -/

/-- A connection is closed with all its complete lines appended exactly if none is left in its receive
queue. For a producer that had hung up when its last turn began, that is what lies behind the bytes
that the turn's one read took. -/
theorem listener_close_noLoss {es : List Event} {w : World}
    (hr : Run World.Step (World.start (listenerStart lfd store conns pfds)) es w) :
    (∀ k fs w', World.Step w fs w' → .close k ∈ fs →
      (NoLoss k es (w.sent k) ↔ newline ∉ w.rx k)) ∧
    ∀ k i keep bytes w₁ gs w₂ fs w', w.l.pc = .service i keep →
      hangup (w.l.pfds (i + 1)).revents = true → w.hup k = true →
      World.Step w [.read k bytes] w₁ → Run World.Step w₁ gs w₂ → .close k ∉ gs →
      World.Step w₂ fs w' → .close k ∈ fs →
      (NoLoss k (es ++ [.read k bytes] ++ gs) (w₂.sent k) ↔
        newline ∉ (w.rx k).drop bytes.length) := by
  constructor
  · intro k fs w' hst hk
    exact noLoss_iff hr hst hk
  · intro k i keep bytes w₁ gs w₂ fs w' hpc hre hhup hread hturn hno hst hk
    exact turn_noLoss_iff hr hpc hre hhup hread hturn hno hst hk

/-- A producer queues `bytes ++ rest` on connection 0 and hangs up. The next round reports both
`POLLIN` and `POLLHUP`, and its read takes `bytes`. -/
theorem hangup_run (bytes rest : List Byte) (hlen : 0 < bytes.length) (hle : bytes.length ≤ 2048) :
    ∃ es w w₁ gs w₂ w', Run World.Step (World.start demoStart) es w ∧
      w.l.pc = .service 0 0 ∧ hangup (w.l.pfds 1).revents = true ∧ w.hup 0 = true ∧
      w.rx 0 = bytes ++ rest ∧ World.Step w [.read 0 bytes] w₁ ∧ Run World.Step w₁ gs w₂ ∧
      .close 0 ∉ gs ∧ World.Step w₂ [.close 0] w' ∧ w₂.l.pc ≠ .top ∧ w₂.hup 0 = true ∧
      0 ∈ w₂.l.polled.map Prod.fst ∧ w₂.sent 0 = bytes ++ rest := by
  obtain ⟨l, es, hl, hno, hpc, hnc, hre, hser, hpolled⟩ : ∃ l es,
      exec demoStart (accepting ++
        [.poll (fun k => if k = 1 then pollin ||| pollhup else 0) false, .accept (-1)]) =
          some (l, es) ∧ (∀ k, bytesOf k es = []) ∧ l.pc = .service 0 0 ∧ l.nc = 1 ∧
      (l.pfds 1).revents = pollin ||| pollhup ∧ (l.conns 0).serial = 0 ∧
      l.polled.map Prod.fst = [0] := ⟨_, _, rfl, fun _ => rfl, rfl, rfl, rfl, rfl, rfl⟩
  have hin : (l.pfds 1).revents &&& pollin ≠ 0 := by rw [hre]; decide
  have hhup : hangup (l.pfds 1).revents = true := by rw [hre]; decide
  have h₀ : Run World.Step (World.start demoStart) [] (World.start demoStart) := .refl
  have h₁ := h₀.snoc (.arrive (k := 0) (bytes ++ rest) rfl)
  have h₂ := (h₁.snoc (.hangup 0)).append (World.run_listener (exec_run _ hl) hno)
  obtain ⟨w, hr, rfl, hrx, hsent, hgone⟩ : ∃ w, Run World.Step (World.start demoStart) es w ∧
      w.l = l ∧ w.rx 0 = bytes ++ rest ∧ w.sent 0 = bytes ++ rest ∧ w.hup 0 = true :=
    ⟨_, h₂, rfl, by simp [World.start], by simp [World.start], by simp⟩
  have hread := step_read hpc (hnc ▸ Nat.one_pos) hin hlen hle
  rw [hser] at hread
  obtain ⟨gs, l₂, hfeed, hnogs, hclose, hpc₂, hser₂, hpolled₂⟩ := feeding_run (s := { w.l with
    pc := .feeding 0 0 (w.l.pfds 1).revents bytes }) rfl
  rw [hser] at hclose hser₂
  have hend := step_hangup hpc₂ hhup
  rw [hser₂] at hend
  exact ⟨es, w, _, gs, _, _, hr, hpc, hhup, hgone, hrx, .read hread hrx,
    World.run_listener hfeed hnogs, hclose, .listen hend fun _ => rfl, by simp [hpc₂], hgone,
    by simp [hpolled₂, hpolled], hsent⟩

/-- Of 2049 queued bytes the one read of the last round leaves the newline behind, and with it the
line. -/
theorem listener_close_noLoss_backlog :
    ¬ ∀ lfd store conns pfds es w k fs w',
      Run World.Step (World.start (listenerStart lfd store conns pfds)) es w →
      World.Step w fs w' → .close k ∈ fs → w.l.pc ≠ .top → w.hup k = true →
      k ∈ w.l.polled.map Prod.fst → NoLoss k es (w.sent k) := by
  intro h
  -- The 2048 bytes stay behind a name, so that nothing tries to evaluate them.
  obtain ⟨bytes, hbytes⟩ : ∃ bytes, bytes = List.replicate 2048 space := ⟨_, rfl⟩
  have hlen : bytes.length = 2048 := by rw [hbytes, List.length_replicate]
  obtain ⟨es, w, w₁, gs, w₂, w', hr, hpc, hre, hhup, hrx, hread, hturn, hno, hst, hpc₂, hhup₂,
    hpolled, _⟩ := hangup_run bytes [newline] (by omega) (by omega)
  have hloss := h _ _ _ _ _ _ 0 _ _ ((hr.snoc hread).append hturn) hst (by simp) hpc₂ hhup₂ hpolled
  rw [turn_noLoss_iff hr hpc hre hhup hread hturn hno hst (by simp), hrx, List.drop_left] at hloss
  exact hloss (by simp)

theorem listener_close_noLoss_short : ∃ es w, Run World.Step (World.start demoStart) es w ∧
    w.sent 0 = lit "2 x" ++ [newline] ∧ NoLoss 0 es (w.sent 0) := by
  obtain ⟨es, w, w₁, gs, w₂, w', hr, hpc, hre, hhup, hrx, hread, hturn, hno, hst, _, _, _, hsent⟩ :=
    hangup_run (lit "2 x" ++ [newline]) [] (by decide) (by decide)
  have hiff := (listener_close_noLoss hr).2 0 0 0 _ _ _ _ _ _ hpc hre hhup hread hturn hno hst
    (by simp)
  refine ⟨_, w₂, (hr.snoc hread).append hturn, by simpa using hsent, hiff.mpr ?_⟩
  simp [hrx]

/-! ## Descriptors -/

/-- In every run, the live descriptors are the listening socket, those of the open connections, each once, and
those that were there before. Nothing is polled, accepted from, read or closed that is not live. When the
listener has left its loop, `netlog_stop` closes the last of what it held. -/
theorem listener_descriptors {fds₀ : Finset Int} {as : List (Act Int)} {d : Ingest} (hlfd : lfd ∉ fds₀)
    (hr : Run Ingest.Step (Ingest.start (listenerStart lfd store conns pfds) fds₀) as d) :
    d.live.val = lfd ::ₘ (d.l.fds : Multiset Int) + fds₀.val ∧ Clean (insert lfd fds₀) as ∧
      d.l.fds.length ≤ nlMaxConn ∧
      (d.l.pc = .done → Clean d.live d.l.stopActs ∧ live d.live d.l.stopActs = fds₀) := by
  have hd := ingest_inv hr
  obtain ⟨hval, hclean⟩ := hd.val hlfd
  have hheld : d.l.held = lfd ::ₘ (d.l.fds : Multiset Int) := by rw [Listener.held, hd.listens]
  refine ⟨hheld ▸ hval, hclean, fds_length hd.slots, ?_⟩
  intro hdone
  have hone : d.l.held = {d.l.lfd} := by simp [Listener.held, Listener.fds, Listener.opens, hdone]
  have hstop : Owns d.l.held d.l.stopActs 0 := by
    rw [hone]
    exact .release _ .nil
  obtain ⟨hlive, hclosed⟩ := hstop.live hval (granted_of_releases (by simp [Listener.stopActs]))
  rw [zero_add] at hlive
  exact ⟨hclosed, Finset.val_inj.mp hlive⟩

/-- Descriptor 7 is closed by a hang-up while 8 is taken, and handed out again. -/
def reusedDescriptor : List Input :=
  [.poll (fun k => if k = 0 then pollin else 0) false, .accept 7, .serve none, .serve none,
    .poll (fun k => if k = 0 then pollin else pollhup) false, .accept 8, .serve none, .serve none,
    .serve none, .poll (fun k => if k = 0 then pollin else 0) false, .accept 7, .serve none, .serve none,
    .serve none, .stop]

theorem listener_descriptors_reused : ∃ as d, Run Ingest.Step (Ingest.start demoStart {0}) as d ∧
    as.count (.acquire 7) = 2 ∧ as.count (.release 7) = 2 ∧ Clean {3, 0} as ∧ live d.live d.l.stopActs = {0} := by
  have hr := ingest_exec_run (d := Ingest.start demoStart {0}) reusedDescriptor rfl
  obtain ⟨_, hclean, _, hdone⟩ := listener_descriptors (by decide) hr
  exact ⟨_, _, hr, by decide, by decide, hclean, (hdone rfl).2⟩

end Vlog.Emulator
