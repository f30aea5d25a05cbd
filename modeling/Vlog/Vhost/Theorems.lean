import Vlog.Emulator.Collector
import Vlog.Vhost.Lemmas.Backend
import Vlog.Vhost.Lemmas.Chains
import Vlog.Vhost.Lemmas.Position
import Vlog.Vhost.Lemmas.Rings
import Vlog.Vhost.Lemmas.Queue
import Vlog.Vhost.Lemmas.Sink
import Vlog.Vhost.Lemmas.Transmit
import Vlog.Vhost.Lemmas.Watch

/-!
# The guarantees of the virtio backend

No wake-up of the transmit queue is lost, the watch table is a map that each round calls back from, the
handler is given the library's queue, the sink writes one record a chain, and the backend's sink and the
network collector read the lines of their common format alike. A handler that emits what each chain carries
writes the log that the virtqueue test expects.
-/

namespace Vlog.Vhost

open Vlog.Lib Vlog.Libc Vlog.Emulator

/-! ## Wake-ups -/

/-- With the device asleep, no kick pending and the driver between two publications, everything
published has been consumed, and the device is to be kicked at the next entry. -/
theorem txKick_noLostWakeup {num : Nat} (hnum : num ≤ 32768) {x : UInt16} {callFd : Int}
    {es : List Signal} {q : TxQueue} (hr : Run (TxQueue.Step num) (TxQueue.start x callFd) es q)
    (hdev : q.dev = .idle) (hpending : q.pending = false) (hdrv : q.drv = .idle) :
    q.lastAvail = q.idx ∧ q.outstanding = 0 ∧ q.availEvent = q.idx := by
  have hready := TxQueue.run_devInv hr
  simp only [TxQueue.DevInv, hdev] at hready
  obtain ⟨hevent, hann⟩ := hready
  have hidx : q.idx = q.lastAvail := by
    rcases hann with h | h | h | ⟨_, h, _⟩
    · exact h
    · simp [hpending] at h
    · simp [hdrv] at h
    · simp [hdrv] at h
  refine ⟨hidx.symm, ?_, hevent.trans hidx.symm⟩
  rw [(TxQueue.run_counted hnum hr).outstanding, hidx]
  simp

/-- Two chains across the wrap of the index, and one kick. The driver publishes the second one behind the
handler's load of the index and decides before the store of `avail_event`: the check of the index finds it. -/
theorem txKick_noLostWakeup_wrap : ∃ es q, Run (TxQueue.Step 256) (TxQueue.start 65535 3) es q ∧
    q.idx = 1 ∧ es = [.kick, .interrupt] ∧
    q.lastAvail = q.idx ∧ q.outstanding = 0 ∧ q.availEvent = q.idx := by
  have h₀ : Run (TxQueue.Step 256) (TxQueue.start 65535 3) [] (TxQueue.start 65535 3) := .refl
  have h₁ := h₀.snoc (.store 1 rfl (by decide) (by decide))
  have h₂ := h₁.snoc (.decide rfl)
  have h₃ := h₂.snoc (.kick rfl)
  have h₄ := h₃.snoc (.begin rfl rfl)
  have h₅ := h₄.snoc (.load rfl)
  have h₆ := h₅.snoc (.complete rfl (by decide))
  have h₇ := h₆.snoc (.store 1 rfl (by decide) (by decide))
  have h₈ := h₇.snoc (.decide rfl)
  have h₉ := h₈.snoc (.handled rfl rfl)
  have h₁₀ := h₉.snoc (.publish rfl)
  have h₁₁ := h₁₀.snoc (.again rfl (by decide) (by decide))
  have h₁₂ := h₁₁.snoc (.load rfl)
  have h₁₃ := h₁₂.snoc (.complete rfl (by decide))
  have h₁₄ := h₁₃.snoc (.handled rfl rfl)
  have h₁₅ := h₁₄.snoc (.publish rfl)
  have hr := h₁₅.snoc (.caughtUp rfl rfl)
  exact ⟨_, _, hr, rfl, rfl, txKick_noLostWakeup (by decide) hr rfl rfl rfl⟩

/-! ## Watches -/

/-- While the table has room for all descriptors watched, it holds each of them once and is the map that the
calls make. In every round of a run, an entry of the snapshot that is readable gets one callback, the one
registered when its turn comes, and no other entry or descriptor gets any. -/
theorem watches_dispatch {κ δ : Type*} :
    (∀ ops : List (WatchOp κ δ), WithinTable ops →
      Distinct Watch.fd (Watches.empty.applyAll ops).rows ∧
        (Watches.empty.applyAll ops).toMap = watched ops) ∧
    ∀ (es : List (WatchEvent κ δ)) w, Run Watches.Step Watches.empty es w →
      ∀ x w' fs, w.round x = some (w', fs) →
        (∀ pre p post, w.polled x = pre ++ p :: post →
          let t := w.turn x pre
          t.1 = Watches.empty.applyAll (opsOf (es ++ t.2)) ∧
            t.2 ++ (t.1.due p).map (fun c => .call p.fd c.1 c.2) <+: fs ∧
            callsOf p.fd fs = t.1.due p) ∧
        ∀ fd, fd ∉ (w.polled x).map Pollfd.fd → callsOf fd fs = [] := by
  refine ⟨fun ops h => ⟨applyAll_distinct empty_distinct ops, toMap_applyAll h⟩, ?_⟩
  intro es w hr x w' fs hround
  obtain ⟨htable, hd⟩ := run_table hr
  have hfs : fs = x.dispatched.map .op ++
      ((w.applyAll x.dispatched).serve x.answer 1 (w.polled x)).2 :=
    congrArg Prod.snd (round_turn hround)
  constructor
  · intro pre p post hpolled t
    rw [Distinct, ← polled_fds w x, hpolled] at hd
    obtain ⟨⟨gs, hgs⟩, hcalls⟩ := serve_entry hd x.answer 1 (w.applyAll x.dispatched)
    rw [← hpolled] at hgs hcalls
    refine ⟨?_, ⟨gs, ?_⟩, ?_⟩
    · rw [opsOf_append, applyAll_append, ← htable]
      exact turn_table w x pre
    · rw [hfs, hgs]
      simp [t, Watches.turn]
    · rw [hfs, callsOf_append, callsOf_map_op, List.nil_append, hcalls]
      rfl
  · intro fd hfd
    rw [hfs, callsOf_append, callsOf_map_op, List.nil_append]
    exact callsOf_serve_other hfd _ _ _

def demoSetup : Round Nat Unit :=
  { revents := fun k => if k = 0 then pollin else 0, alive := true
    dispatch := [.set 5 10 (), .set 6 11 (), .set 7 12 ()], answer := fun _ => [] }

/-- All descriptors are readable, and the first callback removes the first two of them. -/
def demoRound : Round Nat Unit :=
  { revents := fun k => if k = 0 then 0 else pollin, alive := true
    dispatch := [], answer := fun k => if k = 1 then [.remove 5, .remove 6] else [] }

theorem watches_dispatch_removed :
    (Watches.empty.applyAll demoSetup.dispatch).toMap = watched demoSetup.dispatch ∧
    ∃ es w w' fs, Run Watches.Step Watches.empty es w ∧
      w.round demoRound = some (w', fs) ∧ callsOf 5 fs = [(10, ())] ∧ callsOf 6 fs = [] ∧
      callsOf 7 fs = [(12, ())] := by
  have hroom : WithinTable demoSetup.dispatch := withinTable_of_length (by decide)
  have h₁ : Run Watches.Step Watches.empty _ _ := .single ⟨demoSetup, rfl⟩
  refine ⟨(watches_dispatch.1 demoSetup.dispatch hroom).2, _, _, _, _, h₁, rfl, ?_, ?_, ?_⟩
  · exact ((watches_dispatch.2 _ _ h₁ demoRound _ _ rfl).1 [] ⟨5, pollin⟩ _ rfl).2.2
  · exact ((watches_dispatch.2 _ _ h₁ demoRound _ _ rfl).1 [_] ⟨6, pollin⟩ _ rfl).2.2
  · exact ((watches_dispatch.2 _ _ h₁ demoRound _ _ rfl).1 [_, _] ⟨7, pollin⟩ _ rfl).2.2

/-! ## The handler's view -/

/-- The queue that `tx_kick` builds is the one of the library exactly if 16 bits hold its size. For a larger
size each of the three things goes wrong. -/
theorem txView_faithful {vuq : VuVirtq} {vq : Virtq} (h : txView vuq = some vq) :
    (vq.Faithful vuq.vring ↔ vuq.vring.num.toNat < 65536) ∧
    (65536 ≤ vuq.vring.num.toNat → vq.num.toNat ≠ vuq.vring.num.toNat ∧
      ¬ vq.Covers vuq.vring.num.toNat ∧ ¬ vq.KeepsUsed vuq.vring.num.toNat) := by
  obtain ⟨hnum, hpos⟩ := txView_num h
  have hlt := vq.num.toNat_lt
  refine ⟨⟨?_, ?_⟩, ?_⟩
  · intro hf
    have heq := hf.num
    omega
  · intro hsmall
    have heq : vq.num.toNat = vuq.vring.num.toNat := by omega
    constructor
    case num => exact heq
    case nonzero =>
      intro hzero
      rw [hzero] at heq
      exact absurd heq hpos.ne
    case covers => exact Virtq.covers_of_le (heq ▸ hpos) heq.ge
    case keepsUsed => exact Virtq.keepsUsed_of_le heq.ge
  · intro hlarge
    refine ⟨by omega, ?_, ?_⟩
    · intro hcovers
      have hle := Virtq.le_of_covers hcovers hpos
      omega
    · intro hkeeps
      have hle := Virtq.le_of_keepsUsed hkeeps
      omega

def demoQueue : VuVirtq :=
  { vring := { num := 0, desc := 4096, avail := 8192, used := 12288 }, lastAvailIdx := 0 }

/-- The size 65536 passes the guard of `tx_kick`, and the handler is given the size 0. -/
theorem txView_faithful_wraps :
    (¬ ∀ vuq vq, txView vuq = some vq → vq.Faithful vuq.vring) ∧
      ∃ vq, txView (vuSetVringNumExec demoQueue 65536) = some vq ∧ vq.num = 0 := by
  have hview : txView (vuSetVringNumExec demoQueue 65536) =
      some { desc := 4096, avail := 8192, used := 12288, num := 0, lastAvail := 0 } := by decide
  refine ⟨?_, _, hview, rfl⟩
  intro h
  exact (h _ _ hview).nonzero rfl

theorem txView_faithful_256 : ∃ vq, txView (vuSetVringNumExec demoQueue 256) = some vq ∧
    vq.Faithful (vuSetVringNumExec demoQueue 256).vring := by
  have hview : txView (vuSetVringNumExec demoQueue 256) =
      some { desc := 4096, avail := 8192, used := 12288, num := 256, lastAvail := 0 } := by decide
  exact ⟨_, hview, (txView_faithful hview).1.mpr (by decide)⟩

/-! ## One chain, one record -/

/-- The file has one entry for each chain that is not only carriage returns and newlines, or as many
entries as there are such chains, exactly if no chain has a newline elsewhere than at its end. -/
theorem sink_oneRecordEach (chains : List (List Byte)) :
    (decodeLog (vlogSinkEmits chains).store.file = some (chainEntries chains) ↔
        ∀ c ∈ chains, newline ∉ stripEnd c) ∧
      ((∃ es, decodeLog (vlogSinkEmits chains).store.file = some es ∧
          es.length = (chains.filter Kept).length) ↔ ∀ c ∈ chains, newline ∉ stripEnd c) := by
  rw [(vlogSinkEmits_eq chains).1, ← newline_not_mem_chainRecords, ← map_entry_chainRecords,
    ← length_chainRecords]
  exact ⟨decodeLog_text_iff _, decodeLog_length_iff _⟩

/-- One chain with a newline inside. Its second line reads as an ERROR record with the number 7. -/
theorem sink_oneRecordEach_smuggled :
    (¬ ∀ chains, decodeLog (vlogSinkEmits chains).store.file = some (chainEntries chains)) ∧
      decodeLog (vlogSinkEmits [lit "a\n[7] ERROR b\n"]).store.file =
        some [⟨0, lit "INFO", lit "a"⟩, ⟨7, lit "ERROR", lit "b"⟩] := by
  have hfile : decodeLog (vlogSinkEmits [lit "a\n[7] ERROR b\n"]).store.file =
      some [⟨0, lit "INFO", lit "a"⟩, ⟨7, lit "ERROR", lit "b"⟩] := by decide
  refine ⟨?_, hfile⟩
  intro h
  have hone := h [lit "a\n[7] ERROR b\n"]
  rw [hfile] at hone
  have hlen := congrArg (Option.map List.length) hone
  exact absurd hlen (by decide)

/-! ## Two transports -/

/-- A line of at most 4095 bytes that is not carriage returns alone becomes one record on either
transport. The two records have the same level name and message exactly if the line is a one-digit
level, a space and a message without NUL, and does not end with a carriage return. -/
theorem transports_agree {line : List Byte} (hnl : newline ∉ line) (hcr : ∃ b ∈ line, b ≠ cr)
    (hlen : line.length ≤ 4095) (sink : VlogSink) (nl : Netlog) (c : Conn) (hc : c.buf = []) :
    ∃ r r', vlogSinkEmit sink (line ++ [newline]) =
        ({ store := logstoreAppend sink.store r, seq := sink.seq + 1 }, some r) ∧
      feed nl c (line ++ [newline]) =
        ({ store := logstoreAppend nl.store r', seq := nl.seq + 1 }, c,
          [.line c.serial line r']) ∧
      (levelName r.level = levelName r'.level ∧ r.bytes = r'.bytes ↔ LevelFirst line) := by
  obtain ⟨tail, _, hne, _, _⟩ := stripEnd_line hnl hcr
  have hfit : line.length ≤ lineBound := hlen.trans (by decide)
  refine ⟨{ seq := sink.seq, level := (splitLevel (stripEnd line)).1
            bytes := (splitLevel (stripEnd line)).2 },
    { seq := nl.seq, level := (parseLine line).1, bytes := (parseLine line).2 }, ?_, ?_,
    readers_agree_iff hnl hcr⟩
  · simp [vlogSinkEmit, stripEnd_newline, hne]
  · rw [feed_line nl c hc hnl hfit []]
    rfl

/-- Without a level, the sink takes a line for an INFO message, and the collector for a level alone. -/
theorem transports_agree_bare :
    ¬ ∀ (line : List Byte) (sink : VlogSink) (nl : Netlog) (c : Conn), newline ∉ line →
      (∃ b ∈ line, b ≠ cr) → line.length ≤ 4095 → c.buf = [] →
      ∃ r r' : Record, (vlogSinkEmit sink (line ++ [newline])).2 = some r ∧
        records (feed nl c (line ++ [newline])).2.2 = [r'] ∧
        levelName r.level = levelName r'.level ∧ r.bytes = r'.bytes := by
  intro h
  obtain ⟨r, r', hr, hr', _, hbytes⟩ := h (lit "hello") vlogSinkOpen (netlogStart logstoreOpen)
    { fd := 4, buf := [], serial := 0 } (by decide) (by decide) (by decide) rfl
  have h₁ : (vlogSinkEmit vlogSinkOpen (lit "hello" ++ [newline])).2 =
      some ⟨0, 1, lit "hello"⟩ := by decide
  have h₂ : records (feed (netlogStart logstoreOpen) { fd := 4, buf := [], serial := 0 }
      (lit "hello" ++ [newline])).2.2 = [⟨0, 0, []⟩] := by decide
  rw [h₁] at hr
  rw [h₂] at hr'
  cases hr
  cases hr'
  exact absurd hbytes (by decide)

theorem transports_agree_digit : LevelFirst (lit "2 disk full") ∧
    ∃ r r' : Record, (vlogSinkEmit vlogSinkOpen (lit "2 disk full" ++ [newline])).2 = some r ∧
      records (feed (netlogStart logstoreOpen) { fd := 4, buf := [], serial := 0 }
        (lit "2 disk full" ++ [newline])).2.2 = [r'] ∧
      levelName r.level = levelName r'.level ∧ r.bytes = r'.bytes := by
  have hfirst : LevelFirst (lit "2 disk full") := by
    refine ⟨50, lit "disk full", by decide, by decide, by decide, ?_⟩
    intro front h
    have hlast := congrArg List.getLast? h
    rw [List.getLast?_concat] at hlast
    exact absurd hlast (by decide)
  have hnl : newline ∉ lit "2 disk full" := by decide
  have hcr : ∃ b ∈ lit "2 disk full", b ≠ cr := ⟨50, by decide, by decide⟩
  obtain ⟨r, r', hr, hr', hiff⟩ := transports_agree hnl hcr (by decide) vlogSinkOpen
    (netlogStart logstoreOpen) { fd := 4, buf := [], serial := 0 } rfl
  exact ⟨hfirst, r, r', by rw [hr], by rw [hr']; rfl, hiff.mpr hfirst⟩

/-! ## Descriptors and mappings -/

/-- In every run, what is live is named by exactly one field of the state, left over by a message or from
before. Nothing is closed, unmapped, read or signalled that is not live, `MAP_FAILED` apart, and `vu_deinit`
releases all that the state names. -/
theorem process_resources {s₀ : Finset Resource} {es : List Effect} {s : Process}
    (hr : Run Process.Step (Process.start s₀) es s) :
    s.live.val = s.backend.dev.held + s.stray + s₀.val ∧ Clean s₀ (acts es) ∧
      Clean s.live (acts (vuDeinit s.backend.dev).2) ∧
      (live s.live (acts (vuDeinit s.backend.dev).2)).val = s.stray + s₀.val := by
  have hs := Process.run_inv hr
  obtain ⟨hval, hclean⟩ := hs.val
  have hsplit : s.live.val = s.backend.dev.held + (s.stray + s₀.val) := by rw [hval, add_assoc]
  obtain ⟨hlive, hclosed⟩ := (owns_vuDeinit hs.mapped).live hsplit
    (granted_of_releases (releases_vuDeinit s.backend.dev))
  exact ⟨hval, hclean, hclosed, hlive.trans (zero_add _)⟩

def demoAnswer : Answer :=
  { mmap := fun _ => none, signal := true, drain := true, userfault := false, replied := true
    handled := (0, 0) }

/-- `VHOST_USER_SET_VRING_KICK` for the transmit queue. The kick that is watched is readable, too. -/
def demoRekick (fd : Int) : Iteration :=
  { revents := fun _ => pollin
    packet := { header := some (12, 1, 8), fds := [fd], body := some [1, 0, 0, 0, 0, 0, 0, 0] }
    answer := demoAnswer
    kick := fun _ => demoAnswer }

theorem demoRekick_sound {fd : Int} (h : 0 ≤ fd) : (demoRekick fd).Sound where
  proper _ hm := proper_of_header rfl (by decide) hm
  fds := by simpa [demoRekick] using h
  maps i addr haddr := nomatch haddr

def demoWatched (b : Backend) (fd : Int) : Backend :=
  { dev := b.dev.setVq vqTx ((b.dev.vq vqTx).kicked vqTx fd)
    w := { rows := [{ fd := fd, cb := (), data := vqTx }], fits := Nat.one_le_ofNat } }

theorem demoRekick_first : (Process.start ∅).Takes (demoRekick 7)
    [.received 7, .watch (.set 7 () 1), .watch (.set 7 () 1)]
    { backend := demoWatched .start 7, live := {.fd 7}, stray := 0 } :=
  ⟨demoRekick_sound (by decide), rfl, by decide, rfl, rfl⟩

theorem demoRekick_second :
    Process.Takes { backend := demoWatched .start 7, live := {.fd 7}, stray := 0 } (demoRekick 8)
      [.received 8, .watch (.remove 7), .close 7, .watch (.set 8 () 1), .watch (.set 8 () 1)]
      { backend := demoWatched (demoWatched .start 7) 8, live := {.fd 8}, stray := 0 } :=
  ⟨demoRekick_sound (by decide), rfl, by decide, by decide, rfl⟩

/-- One kick after the other: the first is closed when the second arrives, and the second in the end. -/
theorem process_resources_rekick : ∃ es s, Run Process.Step (Process.start ∅) es s ∧
    s.live = {.fd 8} ∧ Effect.close 7 ∈ es ∧ Clean ∅ (acts es) ∧
    live s.live (acts (vuDeinit s.backend.dev).2) = ∅ := by
  have h₁ : Process.Step (Process.start ∅) _ _ := ⟨_, demoRekick_first⟩
  have hr := (Run.single h₁).snoc ⟨_, demoRekick_second⟩
  obtain ⟨_, hclean, _, hlive⟩ := process_resources hr
  exact ⟨_, _, hr, rfl, by decide, hclean, Finset.val_eq_zero.mp hlive⟩

/-! ## Kicks -/

/-- In every run the table of watches has the kick of the transmit queue, which is live and has its handler,
or nothing. The message of an iteration reads no kick, and calls `tx_kick` once if it is a kick itself, and
otherwise not. The callbacks read the kick and call `tx_kick` once where `poll` reports it readable and the
message does not take it away, and otherwise do neither. -/
theorem process_kicks {s₀ : Finset Resource} {es : List Effect} {s : Process}
    (hr : Run Process.Step (Process.start s₀) es s) :
    (s.backend.w.rows = s.backend.dev.txWatch ∧
      ∀ w ∈ s.backend.w.rows, .fd w.fd ∈ s.live ∧ (s.backend.dev.vq w.data).handler = true) ∧
    ∀ y fs s', s.Takes y fs s' →
      ∃ b gs hs, s.backend.dispatch y = .ok (b, gs) ∧ fs = gs ++ hs ∧
        (y.Inband → kicksOf gs = [.txKick vqTx] ∧
          b.dev = (txKick (s.backend.dev.setVq vqTx ((s.backend.dev.vq vqTx).resumed vqTx)) vqTx
            y.answer).1) ∧
        (¬ y.Inband → kicksOf gs = []) ∧
        (s.Kicked y →
          kicksOf hs = [.drain (s.backend.dev.vq vqTx).kickFd, .txKick vqTx] ∧
          s'.backend = { dev := (txKick b.dev vqTx (y.kick 1)).1, w := b.w } ∧
          hs = .drain (s.backend.dev.vq vqTx).kickFd :: (txKick b.dev vqTx (y.kick 1)).2) ∧
        (¬ s.Kicked y → s'.backend = b ∧ hs = []) := by
  have hs := Process.run_inv hr
  have hlive : (s.backend.dev.vq vqTx).kickFd ≠ -1 → .fd (s.backend.dev.vq vqTx).kickFd ∈ s.live := by
    intro hne
    have hlt : vqTx < s.backend.dev.maxQueues := by
      rw [hs.watched.queues]
      exact Nat.one_lt_two
    have hmem := mem_held_queue hlt (mem_held_kickFd hne)
    rw [← Finset.mem_val, hs.val.1, add_assoc]
    exact Multiset.mem_add.mpr (.inl hmem)
  refine ⟨⟨hs.watched.rows, ?_⟩, ?_⟩
  · intro w hw
    rw [hs.watched.rows, VuDev.txWatch] at hw
    split at hw
    · cases hw
    · rename_i hne
      cases List.mem_singleton.mp hw
      exact ⟨hlive hne, hs.watched.kicked hne⟩
  · intro y fs s' hst
    obtain ⟨b, gs, hs', hdispatch, hserve, rfl⟩ := iterate_cases hst.iterate
    have hwatched := hs.watched.dispatch hs.nodup hst.sound hdispatch
    have hturn := hs.watched.turn hwatched hserve
    have hgranted := hst.granted
    rw [acts_append, granted_append] at hgranted
    obtain ⟨hinband, hnone⟩ := dispatch_inband hs.watched hdispatch
    refine ⟨b, gs, hs', hdispatch, rfl, hinband, hnone, ?_, ?_⟩
    · rintro ⟨hne, hin, hno⟩
      have hsame := (dispatch_rekicks hne (hlive hne) hgranted.1 hdispatch).mpr hno
      rw [if_pos ⟨hne, hin, hsame⟩] at hturn
      refine ⟨?_, hturn⟩
      rw [hturn.2]
      exact congrArg (Effect.drain _ :: ·) (kicksOf_txKick ..)
    · intro hnot
      rwa [if_neg ?_] at hturn
      rintro ⟨hne, hin, hsame⟩
      exact hnot ⟨hne, hin, (dispatch_rekicks hne (hlive hne) hgranted.1 hdispatch).mp hsame⟩

/-- `VHOST_USER_VRING_KICK` for the transmit queue, beside a kick that is readable. -/
def demoInband : Iteration :=
  { demoRekick 0 with
    packet := { header := some (35, 1, 8), fds := [], body := some [1, 0, 0, 0, 0, 0, 0, 0] } }

/-- The rings are not set up yet, so `tx_kick` leaves the queue as it is. -/
theorem demoInband_takes :
    Process.Takes { backend := demoWatched .start 7, live := {.fd 7}, stray := 0 } demoInband
      [.txKick 1, .drain 7, .txKick 1]
      { backend := { demoWatched .start 7 with
          dev := (demoWatched .start 7).dev.setVq vqTx (((demoWatched .start 7).dev.vq vqTx).resumed vqTx) }
        live := {.fd 7}, stray := 0 } :=
  ⟨⟨fun _ hm => proper_of_header rfl (by decide) hm, by simp [demoInband], fun _ _ ha => nomatch ha⟩,
    rfl, by decide, rfl, rfl⟩

/-- With a kick that is watched: a message that takes it away leaves it unread, and one that is a kick itself
calls `tx_kick` besides. -/
theorem process_kicks_rekick : ∃ es s, Run Process.Step (Process.start ∅) es s ∧
    s.backend.w.rows = [{ fd := 7, cb := (), data := vqTx }] ∧ ¬ s.Kicked (demoRekick 8) ∧
    (∃ b gs, s.backend.dispatch (demoRekick 8) = .ok (b, gs) ∧ kicksOf gs = [] ∧
      b.w.rows = [{ fd := 8, cb := (), data := vqTx }]) ∧
    s.Kicked demoInband ∧ ∃ b gs hs, s.backend.dispatch demoInband = .ok (b, gs) ∧
      kicksOf gs = [.txKick vqTx] ∧ kicksOf hs = [.drain 7, .txKick vqTx] := by
  have h₁ : Process.Step (Process.start ∅) _ _ := ⟨_, demoRekick_first⟩
  have hr := Run.single h₁
  obtain ⟨⟨hrows, _⟩, hturn⟩ := process_kicks hr
  have hnot : ¬ Process.Kicked { backend := demoWatched .start 7, live := {.fd 7}, stray := 0 }
      (demoRekick 8) := fun hkicked =>
    hkicked.2.2 ⟨_, ⟨by decide, rfl⟩, .inr ⟨rfl, rfl⟩⟩
  have hout : ¬ (demoRekick 8).Inband := by
    rintro ⟨m, ⟨_, hm⟩, hreq, _⟩
    cases hm
    exact absurd hreq (by decide)
  have hkicked : Process.Kicked { backend := demoWatched .start 7, live := {.fd 7}, stray := 0 } demoInband := by
    refine ⟨by decide, by decide, ?_⟩
    rintro ⟨m, ⟨_, hm⟩, ⟨hreq, _⟩ | ⟨hreq, _⟩⟩
    · cases hm
      exact absurd hreq (by decide)
    · cases hm
      exact absurd hreq (by decide)
  obtain ⟨b, gs, hs, hdispatch, _, _, hquiet, _, hback⟩ := hturn _ _ _ demoRekick_second
  obtain ⟨b', gs', hs', hdispatch', _, hinband, _, hcalled, _⟩ := hturn _ _ _ demoInband_takes
  refine ⟨_, _, hr, hrows, hnot, ⟨b, gs, hdispatch, hquiet hout, ?_⟩, hkicked, b', gs', hs', hdispatch',
    (hinband ⟨_, ⟨by decide, rfl⟩, rfl, rfl⟩).1, (hcalled hkicked).1⟩
  rw [← (hback hnot).1]
  rfl

/-! ## Memory -/

/-- In every run in which QEMU leaves the memory of the rings in the table, a queue has no ring or all three,
each where a region of the table maps its address, in a mapping that is live. -/
theorem process_rings {s₀ : Finset Resource} {es : List Effect} {s : Process}
    (hr : Run Process.CarefulStep (Process.start s₀) es s) {i : Nat}
    (hi : i < s.backend.dev.maxQueues) :
    (∀ p ∈ (s.backend.dev.vq i).rings, p.2 = 0) ∨
      ∀ p ∈ (s.backend.dev.vq i).rings, p.2 ≠ 0 ∧ ∃ r ∈ s.backend.dev.regions, r.Maps p.1 p.2 ∧
        .map r.mmapAddr r.mmapLen ∈ s.live ∧
        (r.size.toNat + r.mmapOffset.toNat < 2 ^ 64 →
          (p.2 - r.mmapAddr).toNat < r.mmapLen.toNat) := by
  have hs := Process.run_inv (hr.mono fun _ _ _ h => CarefulStep.step h)
  refine (Process.run_bound hr i hi).imp_right ?_
  intro hbound p hp
  obtain ⟨hne, heq⟩ := hbound p hp
  obtain ⟨r, _, hmem, hmaps⟩ := qvaToVa_maps (heq ▸ hne)
  rw [← heq] at hmaps
  exact ⟨hne, r, hmem, hmaps, hs.live_region hmem, hmaps.within⟩

/-- A message of 40 bytes: eight in front and four words. -/
def demoMessage (request : Int32) (fds : List Int) (front : List UInt8) (ws : List Nat) : Iteration :=
  { revents := fun k => if k = 0 then pollin else 0
    packet :=
      { header := some (request, 1, 40), fds := fds, body := some (front ++ ws.flatMap (Memory.leBytes 8)) }
    answer := { demoAnswer with mmap := fun _ => some 0x500000 }
    kick := fun _ => demoAnswer }

/-- `VHOST_USER_ADD_MEM_REG` -/
def demoAdd : Iteration :=
  demoMessage 37 [5] [0, 0, 0, 0, 0, 0, 0, 0] [0x40000000, 0x10000, 0x70000000, 0x1000]

/-- `VHOST_USER_SET_VRING_ADDR` for the transmit queue -/
def demoAddr : Iteration :=
  demoMessage 9 [] [1, 0, 0, 0, 0, 0, 0, 0] [0x70000000, 0x70002000, 0x70001000, 0]

def demoRegion : VuDevRegion :=
  { gpa := 0x40000000, size := 0x10000, qva := 0x70000000, mmapOffset := 0x1000, mmapAddr := 0x500000 }

def demoAdded : Process :=
  { backend := { dev := { vuInit 2 with regions := [demoRegion] }, w := .empty }
    live := {.map 0x500000 0x11000}, stray := 0 }

def demoRings : VuQueue :=
  { vqStart with
    vuq :=
      { vring := { num := 0, desc := 0x501000, avail := 0x502000, used := 0x503000 }, lastAvailIdx := 0 }
    vra := { descUserAddr := 0x70000000, usedUserAddr := 0x70002000, availUserAddr := 0x70001000 } }

theorem demoMessage_maps (request : Int32) (fds : List Int) (front : List UInt8) (ws : List Nat) :
    (demoMessage request fds front ws).answer.MapsSomewhere := by
  intro i addr haddr
  cases haddr
  exact ⟨by decide, by decide⟩

theorem demoAdd_takes : (Process.start ∅).Takes demoAdd
    [.received 5, .mmap 0x500000 0x11000, .close 5] demoAdded := by
  refine ⟨⟨?_, by decide, demoMessage_maps _ _ _ _⟩, rfl, by decide, by decide, rfl⟩
  exact fun _ hm => proper_of_header rfl (by decide) hm

theorem demoAddr_takes : demoAdded.Takes demoAddr []
    { demoAdded with
      backend := { demoAdded.backend with dev := demoAdded.backend.dev.setVq vqTx demoRings } } := by
  refine ⟨⟨?_, by decide, demoMessage_maps _ _ _ _⟩, rfl, by decide, by decide, rfl⟩
  exact fun _ hm => proper_of_header rfl (by decide) hm

theorem process_rings_added : ∃ es s, Run Process.CarefulStep (Process.start ∅) es s ∧
    (s.backend.dev.vq vqTx).vuq.vring.used = 0x503000 ∧
    ∃ r ∈ s.backend.dev.regions, r.Maps 0x70002000 0x503000 ∧ .map r.mmapAddr r.mmapLen ∈ s.live := by
  have hkeep₁ : (Process.start ∅).KeepsRings demoAdd := fun _ _ _ r hr => nomatch hr
  have hkeep₂ : demoAdded.KeepsRings demoAddr := by
    rintro m ⟨_, hm⟩ hreq
    cases hm
    exact absurd hreq (by decide)
  have h₁ : Process.CarefulStep (Process.start ∅) _ _ := ⟨_, hkeep₁, demoAdd_takes⟩
  have hr := (Run.single h₁).snoc ⟨_, hkeep₂, demoAddr_takes⟩
  obtain hno | hset := process_rings hr (i := vqTx) Nat.one_lt_two
  · exact absurd (hno (0x70000000, 0x501000) List.mem_cons_self) (by decide)
  · obtain ⟨_, r, hmem, hmaps, hlive, _⟩ := hset (0x70002000, 0x503000) (by decide)
    exact ⟨_, _, hr, rfl, r, hmem, hmaps, hlive⟩

/-- In every run, what QEMU reads from the socket is one reply for each message it asks about, in order, with
the payload that the state at that time gives, and nothing more. A reply carries no more descriptors than
`vu_message_write` asserts. -/
theorem process_replies {s₀ : Finset Resource} {xs : List Exchange} {s : Process}
    (hr : Run Process.Talk (Process.start s₀) xs s) :
    (∃ rs, readMessages (xs.filter Exchange.asks).length (xs.flatMap Exchange.written) = .ok (rs, []) ∧
      List.Forall₂ Exchange.RepliedBy (xs.filter Exchange.asks) rs) ∧
    ∀ e ∈ xs, ∀ r ∈ e.sent, r.fds.length ≤ vhostMemoryBaselineNregions := by
  have hxs := (Process.talk_steps hr).2
  exact ⟨readMessages_written hxs, fun e he r hsent => ((hxs e he).fds r hsent).trans (by decide)⟩

/-- A message without a payload -/
def demoAsk (request : Int32) (flags : UInt32) : Iteration :=
  { revents := fun k => if k = 0 then pollin else 0
    packet := { header := some (request, flags, 0), fds := [], body := none }
    answer := demoAnswer
    kick := fun _ => demoAnswer }

theorem demoAsk_takes {request : Int32} {flags : UInt32}
    (hreq : request.toInt ∉ [5, 28, 29, 30, 31, 32]) (hstray : (demoAsk request flags).stray = [])
    (h : Backend.start.iterate (demoAsk request flags) = .ok (.start, [])) :
    (Process.start ∅).Takes (demoAsk request flags) [] (Process.start ∅) := by
  refine ⟨⟨?_, by simp [demoAsk], fun _ _ ha => nomatch ha⟩, h, trivial, rfl, by rw [hstray]; rfl⟩
  exact fun _ hm => proper_of_header rfl hreq hm

/-- The number of the queues, and an acknowledgement: of the three messages the last one is not answered. -/
theorem process_replies_asked : ∃ xs rs, Run Process.Talk (Process.start ∅) xs (Process.start ∅) ∧
    xs.length = 3 ∧ readMessages 2 (xs.flatMap Exchange.written) = .ok (rs, []) ∧
    rs.map (fun r => (r.request.toInt, r.payload.slice 0 r.size.toNat)) =
      [(17, Memory.leBytes 8 2), (3, Memory.leBytes 8 0)] := by
  have h₁ : Process.Talk (Process.start ∅) _ (Process.start ∅) :=
    ⟨demoAsk 17 1, _, demoAsk_takes (by decide) rfl rfl, rfl⟩
  have h₂ : Process.Talk (Process.start ∅) _ (Process.start ∅) :=
    ⟨demoAsk 3 9, _, demoAsk_takes (by decide) rfl rfl, rfl⟩
  have h₃ : Process.Talk (Process.start ∅) _ (Process.start ∅) :=
    ⟨demoAsk 3 1, _, demoAsk_takes (by decide) rfl rfl, rfl⟩
  have hr := ((Run.single h₁).snoc h₂).snoc h₃
  obtain ⟨⟨rs, hread, hreplied⟩, _⟩ := process_replies hr
  refine ⟨_, rs, hr, rfl, hread, ?_⟩
  cases hreplied with
  | cons hfirst hrest =>
      cases hrest with
      | cons hsecond hnil =>
          cases hnil
          simp only [List.map_cons, List.map_nil, hfirst.request, hfirst.body, hsecond.request, hsecond.body]
          rfl

/-! ## The base of a queue -/

/-- `GET_VRING_BASE` stops a queue at its position and says it: there the queue stays in every run that neither
sets the position nor starts it, and there it is started again. Any process that is given the payload of the
reply by `SET_VRING_BASE` for a queue that is stopped has it stopped at the same position. -/
theorem process_base {s₀ : Finset Resource} {es fs : List Effect} {s s' : Process} {y : Iteration}
    {m : VhostUserMsg} (hr : Run Process.Step (Process.start s₀) es s) (hst : s.Takes y fs s')
    (hm : y.Got m) (hreq : m.request.toInt = 11) :
    ∃ e r, y.exchange s.backend.dev = [e] ∧ e.sent = some r ∧
      s'.StoppedAt m.stateIndex (s.backend.dev.lastAvail m.stateIndex) ∧
      ∀ s₁ gs t z hs t' k, Run Process.Step (Process.start s₁) gs t →
        (t.backend.dev.vq m.stateIndex).started = false → t.Takes z hs t' → z.Got k →
        k.request.toInt = 10 → k.payload.slice 0 8 = r.payload.slice 0 8 →
        t'.StoppedAt m.stateIndex (s.backend.dev.lastAvail m.stateIndex) := by
  have hs := Process.run_inv hr
  obtain ⟨hlast, hstopped⟩ := hs.stop hst hm hreq
  obtain ⟨h, hprocess, hexchange⟩ := hst.exchange hm
  have h₁ : vuGetVringBaseExec s.backend.dev m y.answer = .ok h := by
    simpa only [vuProcessMessage, hreq] using hprocess
  obtain ⟨hreply, hmsg⟩ := vuGetVringBaseExec_msg h₁
  refine ⟨_, replyHeader h.msg, hexchange, ?_, ?_, ?_⟩
  · rw [Handling.sends, if_pos hreply]
    rfl
  · rw [← hlast]
    exact (hs.step hst).stoppedAt hstopped
  · intro s₁ gs t z hs₁ t' k ht hstop htakes hk hset hslice
    have hbody : k.payload.slice 0 8 = m.payload.slice 0 4 ++
        Memory.leBytes 4 (s.backend.dev.lastAvail m.stateIndex).toNat := by
      rw [hslice, hmsg]
      exact slice_four _ _
    obtain ⟨hindex, hnum⟩ := state_of_slice hbody
    rw [← hindex] at hstop
    have ht' := Process.run_inv ht
    obtain ⟨hrestored, hstopped'⟩ := ht'.restore htakes hk hset hstop
    rw [hindex] at hrestored hstopped'
    rw [← hnum, ← hrestored]
    exact (ht'.step htakes).stoppedAt hstopped'

/-- A message about the state of the transmit queue -/
def demoState (request : Int32) (num : Nat) : Iteration :=
  { revents := fun k => if k = 0 then pollin else 0
    packet :=
      { header := some (request, 1, 8), fds := [], body := some ([1, 0, 0, 0] ++ Memory.leBytes 4 num) }
    answer := demoAnswer
    kick := fun _ => demoAnswer }

def demoSet : Process :=
  { backend :=
      { dev := (vuInit 2).setVq vqTx { vqStart with vuq := { vqStart.vuq with lastAvailIdx := 7 } }
        w := .empty }
    live := ∅, stray := 0 }

def demoStopped : Process :=
  { demoSet with
    backend :=
      { demoSet.backend with
        dev := demoSet.backend.dev.setVq vqTx ((demoSet.backend.dev.vq vqTx).stopped vqTx) } }

theorem demoState_sound {request : Int32} {num : Nat}
    (hreq : request.toInt ∉ [5, 28, 29, 30, 31, 32]) : (demoState request num).Sound :=
  ⟨fun _ hm => proper_of_header rfl hreq hm, by simp [demoState], fun _ _ ha => nomatch ha⟩

/-- A position is set, asked for, and set in another process, which starts the queue there. -/
theorem process_base_moved : ∃ es s t fs u, Run Process.Step (Process.start ∅) es s ∧
    s.backend.dev.lastAvail vqTx = 7 ∧ (Process.start ∅).Takes (demoState 10 7) [] t ∧
    t.Takes (demoRekick 9) fs u ∧ (u.backend.dev.vq vqTx).started = true ∧
    u.backend.dev.lastAvail vqTx = 7 := by
  have h₁ : (Process.start ∅).Takes (demoState 10 7) [] demoSet :=
    ⟨demoState_sound (by decide), rfl, trivial, rfl, rfl⟩
  have h₂ : demoSet.Takes (demoState 11 0) [] demoStopped :=
    ⟨demoState_sound (by decide), rfl, trivial, rfl, rfl⟩
  have hr : Run Process.Step (Process.start ∅) _ demoSet := Run.single ⟨_, h₁⟩
  obtain ⟨e, r, hexchange, hsent, _, hmove⟩ := process_base (y := demoState 11 0) hr h₂ ⟨by decide, rfl⟩ rfl
  have hslice : ((demoState 11 0).exchange demoSet.backend.dev).map
      (fun e => e.sent.map fun r => r.payload.slice 0 8) = [some [1, 0, 0, 0, 7, 0, 0, 0]] := rfl
  rw [hexchange, List.map_singleton, hsent] at hslice
  have hpayload : r.payload.slice 0 8 = [1, 0, 0, 0, 7, 0, 0, 0] := by simpa using hslice
  have h₃ : demoSet.Takes (demoRekick 9) [.received 9, .watch (.set 9 () 1), .watch (.set 9 () 1)]
      { backend := demoWatched demoSet.backend 9, live := {.fd 9}, stray := 0 } :=
    ⟨demoRekick_sound (by decide), rfl, by decide, rfl, rfl⟩
  have hmoved := hmove ∅ [] (Process.start ∅) (demoState 10 7) [] demoSet _ .refl rfl h₁ ⟨by decide, rfl⟩ rfl
    hpayload.symm
  obtain ⟨_, _, hstart⟩ := hmoved _ _ .refl
  obtain ⟨hstarted, hlast⟩ := hstart _ _ _ _ h₃ ⟨by decide, rfl⟩ rfl rfl
  exact ⟨_, demoSet, demoSet, _, _, hr, rfl, h₁, h₃, hstarted, hlast⟩

/-! ## Transmission -/

/-- In every run of device, driver and `VHOST_USER_SET_VRING_CALL`, on a ring whose size divides the range of its
indices, the sink has been given exactly the chains published up to some point, in order, and the others are still
outstanding. A device that sleeps and has an eventfd for it has raised the interrupt for all of them, and when
nothing is left to do, the file has the entries of everything published, unless some chain has a newline inside. -/
theorem transmit_delivery {num : Nat} (hdvd : num ∣ 65536) (hnum : num ≤ 32768) {x : UInt16} {callFd : Int}
    {avail : Nat → List Byte} {es : List Signal} {t : Transmit}
    (hr : Run (Transmit.Turn num) (Transmit.start x callFd avail) es t) :
    (∃ done pending, t.published = done ++ pending ∧ pending.length = t.q.outstanding ∧
      t.sink = vlogSinkEmits done) ∧
    (t.q.dev = .idle → 0 ≤ t.q.callFd → t.unreported = 0) ∧
    (t.q.Quiet → t.sink = vlogSinkEmits t.published ∧
      (decodeLog t.sink.store.file = some (chainEntries t.published) ↔
        ∀ c ∈ t.published, newline ∉ stripEnd c)) := by
  have h := Transmit.run_inv hdvd hnum hr
  refine ⟨?_, ?_, ?_⟩
  · obtain ⟨done, pending, hpublished, hlen, hsink, _⟩ := h.delivered
    exact ⟨done, pending, hpublished, hlen, hsink⟩
  · intro hdev hfd
    have hreported := h.reported hfd
    rwa [hdev] at hreported
  · intro hquiet
    obtain ⟨_, hsink, _⟩ := h.quiet hquiet
    refine ⟨hsink, ?_⟩
    rw [hsink, (vlogSinkEmits_eq t.published).1, ← map_entry_chainRecords, decodeLog_text_iff,
      newline_not_mem_chainRecords]

def demoEntries : Nat → List Byte := fun _ => []

/-- Two chains across the wrap of the index, in a ring of two, and no eventfd yet. -/
def demoWritten : Transmit :=
  { Transmit.start 65535 (-1) demoEntries with
    avail := Function.update (Function.update demoEntries 1 (lit "2 hi\n")) 0 (lit "bye\n")
    staged := [lit "2 hi\n", lit "bye\n"] }

theorem demoWritten_run :
    Run (Transmit.Turn 2) (Transmit.start 65535 (-1) demoEntries) [] demoWritten := by
  have h₁ : Run (Transmit.Turn 2) (Transmit.start 65535 (-1) demoEntries) [] _ :=
    .single (.step (.write (lit "2 hi\n") rfl (by decide)))
  exact h₁.snoc (.step (.write (lit "bye\n") rfl (by decide)))

/-- The device completes both chains and has nowhere to raise the interrupt, which `VHOST_USER_SET_VRING_CALL`
makes up for. -/
theorem transmit_delivery_wrap : ∃ es t,
    Run (Transmit.Turn 2) (Transmit.start 65535 (-1) demoEntries) es t ∧
    es = [.kick, .interrupt] ∧ t.q.idx = 1 ∧ t.unreported = 0 ∧
    decodeLog t.sink.store.file = some [⟨0, lit "WARN", lit "hi"⟩, ⟨1, lit "INFO", lit "bye"⟩] := by
  have h₁ := demoWritten_run.snoc (.step (.store rfl (by decide)))
  have h₂ := h₁.snoc (.step (.other (.decide rfl) rfl rfl))
  have h₃ := h₂.snoc (.step (.other (.kick rfl) rfl rfl))
  have h₄ := h₃.snoc (.step (.other (.begin rfl rfl) rfl rfl))
  have h₅ := h₄.snoc (.step (.other (.load rfl) rfl rfl))
  have h₆ := h₅.snoc (.step (.complete rfl (by decide)))
  have h₇ := h₆.snoc (.step (.complete rfl (by decide)))
  have h₈ := h₇.snoc (.step (.other (.handled rfl rfl) rfl rfl))
  have h₉ := h₈.snoc (.step (.other (.publish rfl) rfl rfl))
  have h₁₀ := h₉.snoc (.step (.other (.caughtUp rfl rfl) rfl rfl))
  have hr := h₁₀.snoc (.setVringCall 5 rfl)
  obtain ⟨_, hreported, hquiet⟩ := transmit_delivery (by decide) (by decide) hr
  obtain ⟨_, hfile⟩ := hquiet ⟨rfl, rfl, rfl⟩
  refine ⟨_, _, hr, rfl, rfl, hreported rfl (by decide), (hfile.mpr ?_).trans ?_⟩
  · decide
  · decide

/-- From every state that is reached, however device and driver go on without new entries: after at most as
many steps as there is work left they come to rest, nowhere else, and then everything published is recorded
and the interrupt, if there is an eventfd for it, is raised. -/
theorem transmit_settles {num : Nat} (hdvd : num ∣ 65536) (hnum : num ≤ 32768) {x : UInt16} {callFd : Int}
    {avail : Nat → List Byte} {es : List Signal} {t t' : Transmit} {steps : List Unit}
    (hr : Run (Transmit.Turn num) (Transmit.start x callFd avail) es t)
    (hs : Run (Transmit.Settles num) t steps t') :
    steps.length ≤ t.q.work ∧
    (t'.q.Quiet ↔ ∀ more u, ¬ Transmit.Settles num t' more u) ∧
    (t'.q.Quiet → t'.q.outstanding = 0 ∧ t'.sink = vlogSinkEmits t.published ∧
      (0 ≤ t'.q.callFd → t'.unreported = 0)) := by
  obtain ⟨h, hpublished, hwork⟩ := (Transmit.run_inv hdvd hnum hr).settle hdvd hnum hs
  refine ⟨by omega, ⟨?_, ?_⟩, ?_⟩
  · intro hquiet more u hst
    have hless := hst.work hnum h
    obtain ⟨hdev, hpending, hdrv⟩ := hquiet
    have hrest : t'.q.work = 0 := by
      rw [TxQueue.work, (h.quiet ⟨hdev, hpending, hdrv⟩).1, hdev, hpending, hdrv]
      rfl
    rw [hst.1, List.length_singleton] at hless
    omega
  · intro hstuck
    by_contra hbusy
    obtain ⟨more, u, hst⟩ := Transmit.Inv.progress hbusy
    exact hstuck more u hst
  · intro hquiet
    rw [← hpublished]
    exact h.quiet hquiet

/-- The two chains, with an eventfd for the interrupt and the index stored. -/
def demoPublished : Transmit :=
  { demoWritten with
    q := { demoWritten.q with callFd := 5, idx := 1, outstanding := 2, drv := .stored 65535 1 }
    staged := []
    published := [lit "2 hi\n", lit "bye\n"] }

theorem transmit_settles_wrap : ∃ es steps t,
    Run (Transmit.Turn 2) (Transmit.start 65535 (-1) demoEntries) es demoPublished ∧
    demoPublished.q.work = 32 ∧ Run (Transmit.Settles 2) demoPublished steps t ∧ steps.length = 9 ∧
    t.sink = vlogSinkEmits demoPublished.published ∧ t.unreported = 0 ∧
    ∀ more u, ¬ Transmit.Settles 2 t more u := by
  have hcall := demoWritten_run.snoc (.setVringCall 5 rfl)
  have hr : Run (Transmit.Turn 2) (Transmit.start 65535 (-1) demoEntries) _ demoPublished :=
    hcall.snoc (.step (.store rfl (by decide)))
  have h₁ : Run (Transmit.Settles 2) demoPublished _ _ :=
    .single ⟨rfl, ⟨_, .other (.decide rfl) rfl rfl⟩, rfl, rfl⟩
  have h₂ := h₁.snoc ⟨rfl, ⟨_, .other (.kick rfl) rfl rfl⟩, rfl, rfl⟩
  have h₃ := h₂.snoc ⟨rfl, ⟨_, .other (.begin rfl rfl) rfl rfl⟩, rfl, rfl⟩
  have h₄ := h₃.snoc ⟨rfl, ⟨_, .other (.load rfl) rfl rfl⟩, rfl, rfl⟩
  have h₅ := h₄.snoc ⟨rfl, ⟨_, .complete rfl (by decide)⟩, rfl, rfl⟩
  have h₆ := h₅.snoc ⟨rfl, ⟨_, .complete rfl (by decide)⟩, rfl, rfl⟩
  have h₇ := h₆.snoc ⟨rfl, ⟨_, .other (.handled rfl rfl) rfl rfl⟩, rfl, rfl⟩
  have h₈ := h₇.snoc ⟨rfl, ⟨_, .other (.publish rfl) rfl rfl⟩, rfl, rfl⟩
  have hs := h₈.snoc ⟨rfl, ⟨_, .other (.caughtUp rfl rfl) rfl rfl⟩, rfl, rfl⟩
  obtain ⟨_, hstuck, hdone⟩ := transmit_settles (by decide) (by decide) hr hs
  obtain ⟨_, hsink, hreported⟩ := hdone ⟨rfl, rfl, rfl⟩
  exact ⟨_, _, _, hr, rfl, hs, rfl, hsink, hreported (by decide), hstuck.mp ⟨rfl, rfl, rfl⟩⟩

/-! ## The virtqueue test -/

/-- At every seed and in each of its stages: the test can always go on, whatever memory the handler leaves, every
round leaves chains with one reading, and emitting what they carry makes the log that the test expects. -/
theorem virtqTest_agrees (stage : Stage) (seed0 : UInt32) :
    (∃ es g, Rounds stage (testStart seed0) 6 es g) ∧
    (∀ k < 6, ∀ es g, Rounds stage (testStart seed0) k es g →
      ∃ fs, fs ≠ [] ∧ ∀ mem, ∃ g', g'.gmem = mem ∧ RoundStep stage g fs g') ∧
    ∀ es g, Rounds stage (testStart seed0) 6 es g →
      (6 ≤ es.length ∧ es.length ≤ 12) ∧ (∀ p ∈ es, p.2 = payloadOf p.1.level p.1.text) ∧
      (vlogSinkEmits (es.map Prod.snd)).store.file =
        (es.mapIdx fun n p => expLog n p.1 ++ [newline]).flatten := by
  refine ⟨rounds_exist stage seed0 6 (Nat.le_refl 6), fun k hk es g hr => hr.next hk, ?_⟩
  intro es g hr
  obtain ⟨-, hcount, hdrawn⟩ := hr.drawn (Nat.le_refl 6)
  refine ⟨hcount, fun p hp => (hdrawn p hp).2, ?_⟩
  rw [(vlogSinkEmits_eq _).1]
  exact chainRecords_payloads hdrawn

end Vlog.Vhost
