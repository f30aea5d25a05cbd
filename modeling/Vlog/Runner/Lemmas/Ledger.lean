import Vlog.Runner.Ledger
import Vlog.Runner.Lemmas.Shipping

/-!
# The order of the bytes

What a write accepts comes from the front of the pending buffer, and from the record itself only
behind an empty buffer. Everything accepted and then everything pending is in the order of the
records, and each call adds bytes of its own record behind them.
-/

namespace Vlog.Runner

open Vlog.Lib Vlog.Libc

/-! ## The marks change nothing -/

section

variable {α β : Type*} (f : α → β) (s : LogSink α) (line : List α)

theorem logPend_map : logPend (s.map f) (line.map f) = (logPend s line).map f := by
  unfold logPend
  simp only [LogSink.map, List.length_map]
  split
  · rfl
  · simp

theorem keepOrDrop_map (c : Nat) (errno : Errno) :
    (s.map f).keepOrDrop c errno =
      ((s.keepOrDrop c errno).1.map f, (s.keepOrDrop c errno).2.map (LogEvent.map f)) := by
  unfold LogSink.keepOrDrop
  split <;> rfl

theorem logSinkConnect_map (x : ConnectAnswer) :
    logSinkConnect (s.map f) x =
      ((logSinkConnect s x).1, (logSinkConnect s x).2.map (LogEvent.map f)) := by
  unfold logSinkConnect
  simp only [LogSink.map]
  cases s.host with
  | none => rfl
  | some host =>
      simp only
      cases parseIpv4 host with
      | none => rfl
      | some ip =>
          simp only
          split <;> rfl

theorem writeLine_map (c : Nat) (y : WriteAnswer) :
    (s.map f).writeLine c (line.map f) y =
      (s.writeLine c line y).map fun r => (r.1.map f, r.2.map (LogEvent.map f)) := by
  unfold LogSink.writeLine
  cases y with
  | failed errno => simp [keepOrDrop_map, logPend_map]
  | wrote w errno =>
      simp only [List.length_map, keepOrDrop_map, logPend_map]
      split
      · split
        · rfl
        · simp [LogEvent.map]
      · rfl

theorem send_map (c : Nat) (x : Answers) :
    (s.map f).send c (line.map f) x =
      (s.send c line x).map fun r => (r.1.map f, r.2.map (LogEvent.map f)) := by
  have hlen : (s.map f).pend.length = s.pend.length := List.length_map ..
  unfold LogSink.send
  rw [hlen]
  split
  · cases x.flush with
    | failed errno => simp [keepOrDrop_map, logPend_map]
    | wrote w errno =>
        simp only
        split
        · split
          · have hdirect := writeLine_map f { s with pend := [] } line c x.direct
            refine (congrArg (Option.map _) hdirect).trans ?_
            rw [Option.map_map, Option.map_map]
            rfl
          · have hpend := logPend_map f { s with pend := s.pend.drop w } line
            have hdrop : LogSink.map f { s with pend := s.pend.drop w } =
                { s.map f with pend := (s.map f).pend.drop w } := by simp [LogSink.map]
            rw [hdrop] at hpend
            refine congrArg some (Prod.ext hpend ?_)
            simp [LogEvent.map, LogSink.map]
        · rfl
  · exact writeLine_map f s line c x.direct

/-- The sink does not look at what it ships. -/
theorem logSinkEmit_map (x : Answers) :
    logSinkEmit (s.map f) (line.map f) x =
      (logSinkEmit s line x).map fun r => (r.1.map f, r.2.map (LogEvent.map f)) := by
  have hhost : (s.map f).host = s.host := rfl
  have hfd : (s.map f).fd = s.fd := rfl
  have hskip : (s.map f).skip = s.skip := rfl
  unfold logSinkEmit
  rw [hhost, hfd, hskip]
  split
  · rfl
  · cases s.fd with
    | some c => exact send_map f s line c x
    | none =>
        simp only
        split
        · exact congrArg some (Prod.ext (logPend_map f { s with fd := none, skip := s.skip - 1 } line) rfl)
        · simp only [logSinkConnect_map]
          split
          · have hsend := send_map f
              { s with fd := some s.opened, opened := s.opened + 1, backoff := 1 } line s.opened x
            refine (congrArg (Option.map _) hsend).trans ?_
            rw [Option.map_map, Option.map_map]
            congr 1
            funext r
            simp
          · exact congrArg some (Prod.ext (logPend_map f s.backOff line) rfl)

end

/-! ## One call -/

section

variable {α : Type*} {s t : LogSink α} {c : Nat} {line : List α} {x : Answers} {es : List (LogEvent α)}
  {r : LogSink α × List (LogEvent α)}

/-- The four ways of a call where a collector is configured. -/
theorem emit_cases (hhost : s.host ≠ none) (h : logSinkEmit s line x = some r) :
    (s.fd = none ∧ 0 < s.skip ∧ r = (logPend { s with skip := s.skip - 1 } line, [])) ∨
    (s.fd = none ∧ s.skip = 0 ∧ (logSinkConnect s x.connect).1 = false ∧
      r = (logPend s.backOff line, (logSinkConnect s x.connect).2)) ∨
    (s.fd = none ∧ s.skip = 0 ∧ (logSinkConnect s x.connect).1 = true ∧
      ∃ u, s.opening.send s.opened line x = some u ∧
        r = (u.1, (logSinkConnect s x.connect).2 ++ u.2)) ∨
    ∃ c, s.fd = some c ∧ s.send c line x = some r := by
  have hsome : ¬ s.host.isNone = true := by simpa using hhost
  unfold logSinkEmit at h
  rw [if_neg hsome] at h
  cases hfd : s.fd with
  | some c =>
      simp only [hfd] at h
      exact .inr (.inr (.inr ⟨c, rfl, h⟩))
  | none =>
      simp only [hfd] at h
      split at h
      · rename_i hskip
        cases h
        exact .inl ⟨rfl, hskip, by simp⟩
      · rename_i hskip
        have hzero : s.skip = 0 := by omega
        split at h
        · rename_i hconn
          obtain ⟨u, hu, rfl⟩ := Option.map_eq_some_iff.mp h
          exact .inr (.inr (.inl ⟨rfl, hzero, hconn, u, hu, rfl⟩))
        · rename_i hconn
          cases h
          exact .inr (.inl ⟨rfl, hzero, by simpa using hconn, rfl⟩)

@[simp] theorem written_nil : written ([] : List (LogEvent α)) = [] := rfl

@[simp] theorem written_append (es fs : List (LogEvent α)) :
    written (es ++ fs) = written es ++ written fs := by simp [written]

@[simp] theorem written_write (c : Nat) (bytes : List α) (es : List (LogEvent α)) :
    written (.write c bytes :: es) = bytes ++ written es := by simp [written]

@[simp] theorem written_connect (s : LogSink α) (y : ConnectAnswer) :
    written (logSinkConnect s y).2 = [] := by
  rcases connect_events s y with h | ⟨ip, port, h⟩
  · rw [h]
    rfl
  · rw [h]
    rfl

@[simp] theorem written_keepOrDrop (s : LogSink α) (c : Nat) (errno : Errno) :
    written (s.keepOrDrop c errno).2 = [] := by
  unfold LogSink.keepOrDrop
  split <;> rfl

@[simp] theorem written_flushed (s : LogSink α) (c : Nat) : written (s.flushed c) = s.pend := by
  rcases flushed_cases s c with h | ⟨hnil, h⟩
  · simp [h]
  · simp [h, hnil]

theorem logPend_pend (s : LogSink α) (line : List α) :
    ((logPend s line).pend = s.pend ++ line ∧ (logPend s line).pend.length ≤ logPendSize) ∨
      ((logPend s line).pend = s.pend ∧ logPendSize < s.pend.length + line.length) := by
  unfold logPend
  split
  · rename_i h
    exact .inr ⟨rfl, h⟩
  · rename_i h
    refine .inl ⟨rfl, ?_⟩
    simp only [List.length_append]
    omega

/-- Behind a call: what it wrote and what is pending is what was pending, and bytes of the line. -/
structure InOrder (s : LogSink α) (line : List α) (es : List (LogEvent α)) (t : LogSink α) : Prop where
  accounted : Accounted s line es t
  order : ∃ fresh, written es ++ t.pend = s.pend ++ fresh ∧ ∀ a ∈ fresh, a ∈ line

/-- A call that ends in `log_pend`, behind a write of the first `k` pending bytes. Bytes of the line
itself are written only if no other is left. -/
theorem InOrder.pended {u : LogSink α} (k : Nat) (own : List α) (hu : u.pend = s.pend.drop k)
    (hw : s.pend.take k ≠ [] → ∃ c, .write c (s.pend.take k) ∈ es)
    (hes : written es = s.pend.take k ++ own) (hown : ∀ a ∈ own, a ∈ line)
    (hempty : own = [] ∨ s.pend.drop k = []) : InOrder s line es (logPend u line) := by
  have hfront : ∀ back, written es ++ (s.pend.drop k ++ back) = s.pend ++ (own ++ back) := by
    intro back
    rcases hempty with rfl | hdrop
    · rw [hes, List.append_nil, ← List.append_assoc, List.take_append_drop, List.nil_append]
    · have htake : s.pend.take k = s.pend := by
        have hsplit := List.take_append_drop k s.pend
        rwa [hdrop, List.append_nil] at hsplit
      rw [hes, hdrop, htake, List.nil_append, List.append_assoc]
  rcases logPend_pend u line with ⟨hpend, hfit⟩ | ⟨hpend, hfull⟩
  · rw [hu] at hpend
    refine ⟨⟨k, hw, .inr (.inl ⟨hpend, hfit⟩)⟩, own ++ line, ?_, ?_⟩
    · rw [hpend, hfront]
    · intro a ha
      rcases List.mem_append.mp ha with ha | ha
      · exact hown a ha
      · exact ha
  · rw [hu] at hpend hfull
    refine ⟨⟨k, hw, .inr (.inr ⟨hpend, hfull⟩)⟩, own, ?_, hown⟩
    have hnone := hfront []
    rwa [List.append_nil, List.append_nil, ← hpend] at hnone

theorem Sent.inOrder (h : Sent s c line x es t) : InOrder s line es t := by
  cases h with
  | flushShort w =>
      exact .pended w [] rfl (fun _ => ⟨c, List.mem_cons_self⟩) (by simp) (by simp) (.inl rfl)
  | flushFails errno hx hne =>
      exact .pended 0 [] (by simp) (by simp) (by simp) (by simp) (.inl rfl)
  | @direct fs _ hwrote =>
      have hdrop : s.pend.drop s.pend.length = [] := List.drop_length
      have hflush : s.pend.take s.pend.length ≠ [] →
          ∃ c', .write c' (s.pend.take s.pend.length) ∈ s.flushed c ++ fs := by
        intro hne
        rw [List.take_length] at hne ⊢
        have hlen : s.pend.length ≠ 0 := by simpa using hne
        exact ⟨c, by simp [LogSink.flushed, hlen]⟩
      cases hwrote with
      | whole =>
          refine ⟨⟨_, hflush, .inl ⟨by simp [LogSink.emptied], c, by simp⟩⟩, line, ?_, fun _ ha => ha⟩
          simp [LogSink.emptied]
      | short w errno hy hw =>
          exact .pended s.pend.length (line.take w) (by simp [LogSink.emptied]) hflush
            (by simp) (fun _ => List.mem_of_mem_take) (.inr hdrop)
      | fails errno hy =>
          exact .pended s.pend.length [] (by simp [LogSink.emptied]) hflush (by simp)
            (by simp) (.inl rfl)

theorem emit_inOrder (hhost : s.host ≠ none) (h : logSinkEmit s line x = some r) :
    InOrder s line r.2 r.1 := by
  rcases emit_cases hhost h with ⟨_, _, rfl⟩ | ⟨_, _, _, rfl⟩ | ⟨_, _, _, u, hu, rfl⟩ | ⟨c, _, hr⟩
  · exact .pended 0 [] (by simp) (by simp) (by simp) (by simp) (.inl rfl)
  · exact .pended 0 [] (by simp [LogSink.backOff]) (by simp) (by simp) (by simp)
      (.inl rfl)
  · have hin := (send_sent hu).inOrder
    obtain ⟨⟨k, hw, hkept⟩, fresh, horder, hfresh⟩ := hin
    refine ⟨⟨k, ?_, ?_⟩, fresh, by simpa [LogSink.opening] using horder, hfresh⟩
    · intro hne
      obtain ⟨c, hc⟩ := hw hne
      exact ⟨c, List.mem_append_right _ hc⟩
    · rcases hkept with ⟨hpend, c, hc⟩ | hkept
      · exact .inl ⟨hpend, c, List.mem_append_right _ hc⟩
      · exact .inr hkept
  · exact (send_sent hr).inOrder

@[simp] theorem logPend_host (s : LogSink α) (line : List α) : (logPend s line).host = s.host := by
  unfold logPend
  split <;> rfl

@[simp] theorem keepOrDrop_host (s : LogSink α) (c : Nat) (errno : Errno) :
    (s.keepOrDrop c errno).1.host = s.host := by
  unfold LogSink.keepOrDrop
  split <;> rfl

theorem Sent.host (h : Sent s c line x es t) : t.host = s.host := by
  cases h with
  | flushShort w => exact logPend_host _ _
  | flushFails errno _ _ => rw [logPend_host, keepOrDrop_host]
  | direct hwrote =>
      cases hwrote with
      | whole => rfl
      | short w errno _ _ =>
          rw [logPend_host, keepOrDrop_host]
          rfl
      | fails errno _ =>
          rw [logPend_host, keepOrDrop_host]
          rfl

/-- The collector's address never changes. -/
theorem emit_host (hhost : s.host ≠ none) (h : logSinkEmit s line x = some r) :
    r.1.host = s.host := by
  rcases emit_cases hhost h with ⟨_, _, rfl⟩ | ⟨_, _, _, rfl⟩ | ⟨_, _, _, u, hu, rfl⟩ | ⟨c, _, hr⟩
  · exact logPend_host _ _
  · exact logPend_host _ _
  · exact (send_sent hu).host
  · exact (send_sent hr).host

end

/-! ## Runs -/

structure Ledger.Inv (w : Ledger) : Prop where
  host : w.sink.host ≠ none
  bounded : w.sink.pend.length ≤ logPendSize
  lines : ∃ ks : List Nat, ks.Pairwise (· < ·) ∧ (∀ i ∈ ks, i < w.emitted.length) ∧
    w.sink.pend <:+ ks.flatMap w.record
  sorted : (w.accepted ++ w.sink.pend).Pairwise fun a b => a.1 ≤ b.1
  old : ∀ a ∈ w.accepted ++ w.sink.pend, a.1 < w.emitted.length

variable {w w' : Ledger} {es : List (LogEvent (Nat × Byte))}

theorem next_fst {line : List Byte} {a : Nat × Byte} (h : a ∈ w.next line) :
    a.1 = w.emitted.length := by
  obtain ⟨b, _, rfl⟩ := List.mem_map.mp h
  rfl

theorem record_after {line : List Byte} {i : Nat} (h : i < w.emitted.length)
    (r : LogSink (Nat × Byte) × List (LogEvent (Nat × Byte))) :
    (w.after line r).record i = w.record i := by
  simp [Ledger.record, Ledger.after, List.getElem?_append_left h]

theorem record_last (w : Ledger) (line : List Byte)
    (r : LogSink (Nat × Byte) × List (LogEvent (Nat × Byte))) :
    (w.after line r).record w.emitted.length = w.next line := by
  simp [Ledger.record, Ledger.after, Ledger.next]

theorem Ledger.Inv.ordered (hi : w.Inv) : w.Ordered w.sink.pend := by
  obtain ⟨ks, hks, hold, hsuf⟩ := hi.lines
  rcases suffix_flatMap hsuf with hnil | ⟨k, front, ks', hks', hfront, hpend⟩
  · exact .inl hnil
  · refine .inr ⟨k, front, ks', hks.sublist hks'.sublist, ?_, hfront, hpend⟩
    intro i hmem
    exact hold i (hks'.subset hmem)

theorem Ledger.Inv.step (hi : w.Inv) (hst : Ledger.Step w es w') : w'.Inv := by
  obtain ⟨line, x, r, hemit, rfl, rfl⟩ := hst
  obtain ⟨⟨k, _, hkept⟩, fresh, horder, hfresh⟩ := emit_inOrder hi.host hemit
  have hlen : (w.after line r).emitted.length = w.emitted.length + 1 := by simp [Ledger.after]
  have hsink : (w.after line r).sink = r.1 := rfl
  have hbytes : (w.after line r).accepted ++ r.1.pend = w.accepted ++ w.sink.pend ++ fresh := by
    have hacc : (w.after line r).accepted = w.accepted ++ written r.2 := rfl
    rw [hacc, List.append_assoc, horder, List.append_assoc]
  have hnew : ∀ a ∈ fresh, a.1 = w.emitted.length := fun a ha => next_fst (hfresh a ha)
  obtain ⟨ks, hks, hold, hsuf⟩ := hi.lines
  have hdrop : w.sink.pend.drop k <:+ ks.flatMap (w.after line r).record := by
    have hsame : ks.flatMap (w.after line r).record = ks.flatMap w.record :=
      List.flatMap_congr fun i hmem => record_after (hold i hmem) r
    rw [hsame]
    exact (List.drop_suffix k _).trans hsuf
  refine ⟨?_, ?_, ?_, ?_, ?_⟩
  · rw [hsink, emit_host hi.host hemit]
    exact hi.host
  · have hle : (w.sink.pend.drop k).length ≤ logPendSize := by
      have hb := hi.bounded
      rw [List.length_drop]
      omega
    rw [hsink]
    rcases hkept with ⟨hpend, _⟩ | ⟨_, hfit⟩ | ⟨hpend, _⟩
    · rwa [hpend]
    · exact hfit
    · rwa [hpend]
  · have hkeep : r.1.pend = w.sink.pend.drop k →
        ∃ ks : List Nat, ks.Pairwise (· < ·) ∧ (∀ i ∈ ks, i < (w.after line r).emitted.length) ∧
          r.1.pend <:+ ks.flatMap (w.after line r).record := by
      intro hpend
      refine ⟨ks, hks, ?_, hpend ▸ hdrop⟩
      intro i hmem
      have hlt := hold i hmem
      omega
    rw [hsink]
    rcases hkept with ⟨hpend, _⟩ | ⟨hpend, _⟩ | ⟨hpend, _⟩
    · exact hkeep hpend
    · refine ⟨ks ++ [w.emitted.length], ?_, ?_, ?_⟩
      · apply List.pairwise_append.mpr
        refine ⟨hks, List.pairwise_singleton _ _, ?_⟩
        intro i hmem j hj
        rw [List.mem_singleton.mp hj]
        exact hold i hmem
      · intro i hmem
        rcases List.mem_append.mp hmem with hmem | hmem
        · have hlt := hold i hmem
          omega
        · rw [List.mem_singleton.mp hmem]
          omega
      · obtain ⟨front, hfront⟩ := hdrop
        refine ⟨front, ?_⟩
        rw [hpend, List.flatMap_append, List.flatMap_singleton, record_last, ← List.append_assoc,
          hfront]
    · exact hkeep hpend
  · rw [hsink, hbytes]
    apply List.pairwise_append.mpr
    refine ⟨hi.sorted, ?_, ?_⟩
    · apply List.pairwise_of_forall_mem_list
      intro a ha b hb
      rw [hnew a ha, hnew b hb]
    · intro a ha b hb
      have hlt := hi.old a ha
      rw [hnew b hb]
      omega
  · rw [hsink, hbytes]
    intro a ha
    rcases List.mem_append.mp ha with ha | ha
    · have hlt := hi.old a ha
      omega
    · rw [hnew a ha]
      omega

theorem Ledger.run_inv {h : List Byte} {port : Nat}
    (hr : Run Ledger.Step (Ledger.start (some h) port) es w) : w.Inv := by
  refine hr.invariant (I := fun _ w => w.Inv) ?_ fun _ _ _ _ _ hi hst => hi.step hst
  exact ⟨by simp [Ledger.start, LogSink.start], Nat.zero_le _,
    ⟨[], List.Pairwise.nil, by simp, List.suffix_rfl⟩, List.Pairwise.nil, by
      simp [Ledger.start, LogSink.start]⟩

end Vlog.Runner
