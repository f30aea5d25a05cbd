import Vlog.Runner.Lemmas.Ledger
import Vlog.Runner.Retry

/-!
# The gap between attempts

What is still to skip and what has been skipped make up the gap that belongs to the number of failed
attempts. It is the connection that began, not the write that came through, which resets the gap.
-/

namespace Vlog.Runner

open Vlog.Lib Vlog.Libc

variable {α : Type*} {s : LogSink α} {c : Nat} {line : List α} {x : ConnectAnswer}
  {flush direct : Errno} {r : LogSink α × List (LogEvent α)} {w w' : Retry α}
  {es : List (LogEvent α)}

/-! ## One call -/

@[simp] theorem logPend_skip (s : LogSink α) (line : List α) : (logPend s line).skip = s.skip := by
  unfold logPend
  split <;> rfl

@[simp] theorem logPend_backoff (s : LogSink α) (line : List α) :
    (logPend s line).backoff = s.backoff := by
  unfold logPend
  split <;> rfl

theorem send_failing :
    s.send c line (failing x flush direct) =
      some (logPend (s.keepOrDrop c (if s.pend = [] then direct else flush)).1 line,
        (s.keepOrDrop c (if s.pend = [] then direct else flush)).2) := by
  unfold LogSink.send
  by_cases hp : s.pend = []
  · simp [hp, failing, LogSink.writeLine]
  · simp [hp, failing]

def doubled (b : Nat) : Nat := if b < logBackoffMax then b * 2 else b

/-- The ways of a call in which no write succeeds: the record is skipped; an attempt fails at once; a
connection, held or begun now, is kept; or it is given up. -/
inductive Failing (s : LogSink α) (x : ConnectAnswer) (flush direct : Errno) (t : LogSink α) : Prop
  | skipped : s.fd = none → 0 < s.skip → t.fd = none → t.skip = s.skip - 1 →
      t.backoff = s.backoff → ¬ s.HardFails x flush direct → Failing s x flush direct t
  | refused : s.Attempts → t.fd = none → t.skip = s.backoff → t.backoff = doubled s.backoff →
      ¬ s.HardFails x flush direct → Failing s x flush direct t
  | kept {b} : (s.fd ≠ none ∧ b = s.backoff ∨ s.Attempts ∧ b = 1) → t.fd ≠ none → t.backoff = b →
      ¬ s.HardFails x flush direct → Failing s x flush direct t
  | dropped {b} : (s.fd ≠ none ∧ b = s.backoff ∨ s.Attempts ∧ b = 1) → t.fd = none → t.skip = b →
      t.backoff = doubled b → s.HardFails x flush direct → Failing s x flush direct t

/-- A call that has a connection: `u` is the sink that holds it. -/
theorem send_cases {u : LogSink α} {b : Nat} (hfd : u.fd = some c) (hb : u.backoff = b)
    (hpend : u.pend = s.pend) (hs : s.fd ≠ none ∧ b = s.backoff ∨ s.Attempts ∧ b = 1)
    (hreach : s.fd ≠ none ∨ s.skip = 0 ∧ (logSinkConnect s x).1 = true)
    (h : u.send c line (failing x flush direct) = some r) : Failing s x flush direct r.1 := by
  rw [send_failing, hpend] at h
  cases h
  cases hblock : logWouldBlock (if s.pend = [] then direct else flush) with
  | true =>
      refine .kept hs ?_ ?_ ?_
      · simp [LogSink.keepOrDrop, hblock, hfd]
      · simp [LogSink.keepOrDrop, hblock, hb]
      · intro hhard
        rw [hhard.2] at hblock
        cases hblock
  | false =>
      refine .dropped hs ?_ ?_ ?_ ⟨hreach, hblock⟩
      · simp [LogSink.keepOrDrop, hblock, logSinkDrop, LogSink.backOff]
      · simp [LogSink.keepOrDrop, hblock, logSinkDrop, LogSink.backOff, hb]
      · simp [LogSink.keepOrDrop, hblock, logSinkDrop, LogSink.backOff, hb, doubled]

theorem emit_failing (hhost : s.host ≠ none)
    (h : logSinkEmit s line (failing x flush direct) = some r) : Failing s x flush direct r.1 := by
  rcases emit_cases hhost h with ⟨hfd, hskip, rfl⟩ | ⟨hfd, hskip, hconn, rfl⟩ |
    ⟨hfd, hskip, hconn, u, hu, rfl⟩ | ⟨c, hfd, hr⟩
  · refine .skipped hfd hskip (by simp [hfd]) (by simp) (by simp) ?_
    intro hhard
    rcases hhard.1 with hne | ⟨hzero, _⟩
    · exact hne hfd
    · omega
  · refine .refused ⟨hfd, hskip⟩ (by simp [LogSink.backOff, hfd]) (by simp [LogSink.backOff])
      (by simp [LogSink.backOff, doubled]) ?_
    intro hhard
    rcases hhard.1 with hne | ⟨_, hconn'⟩
    · exact hne hfd
    · exact absurd (hconn.symm.trans hconn') (by decide)
  · exact send_cases (r := u) (u := s.opening) rfl rfl rfl (.inr ⟨⟨hfd, hskip⟩, rfl⟩)
      (.inr ⟨hskip, hconn⟩) hu
  · have hne : s.fd ≠ none := by simp [hfd]
    exact send_cases hfd rfl rfl (.inl ⟨hne, rfl⟩) (.inl hne) hr

/-! ## The gap -/

theorem doubled_pow (k : Nat) : doubled (min 64 (2 ^ k)) = min 64 (2 ^ (k + 1)) := by
  by_cases hk : k < 6
  · interval_cases k <;> rfl
  · have hle : 2 ^ 6 ≤ 2 ^ k := Nat.pow_le_pow_right (by decide) (by omega)
    rw [doubled, logBackoffMax, pow_succ]
    split <;> omega

/-! ## What an attempt leaves -/

@[simp] theorem after_sink (w : Retry α) (s : LogSink α) : (w.after s).sink = s := by
  unfold Retry.after
  split <;> rfl

theorem after_failed {t : LogSink α} (h : w.sink.fd ≠ none ∨ w.sink.Attempts) (ht : t.fd = none) :
    w.after t = { sink := t, fails := w.fails + 1, since := 0 } :=
  if_pos ⟨h, ht⟩

theorem after_kept {t : LogSink α} (ht : t.fd ≠ none) :
    w.after t = { sink := t, fails := w.fails, since := w.since + 1 } :=
  if_neg fun h => ht h.2

theorem after_skipped {t : LogSink α} (hfd : w.sink.fd = none) (hskip : 0 < w.sink.skip) :
    w.after t = { sink := t, fails := w.fails, since := w.since + 1 } := by
  apply if_neg
  intro h
  rcases h.1 with hne | hatt
  · exact hne hfd
  · have hzero := hatt.2
    omega

/-- A call that had a connection was on an attempt, old or new. -/
theorem tried {b : Nat} (hs : s.fd ≠ none ∧ b = s.backoff ∨ s.Attempts ∧ b = 1) :
    s.fd ≠ none ∨ s.Attempts := by
  rcases hs with ⟨hne, _⟩ | ⟨hatt, _⟩
  · exact .inl hne
  · exact .inr hatt

theorem backoff_one {b : Nat} (hheld : s.fd ≠ none → s.backoff = 1)
    (hs : s.fd ≠ none ∧ b = s.backoff ∨ s.Attempts ∧ b = 1) : b = 1 := by
  rcases hs with ⟨hne, rfl⟩ | ⟨_, rfl⟩
  · exact hheld hne
  · rfl

/-! ## The invariant of the gap -/

structure Retry.Inv (w : Retry α) : Prop where
  host : w.sink.host ≠ none
  held : w.sink.fd ≠ none → w.sink.backoff = 1
  backoff : w.sink.fd = none → w.sink.backoff = min 64 (2 ^ w.fails)
  fresh : w.sink.fd = none → w.fails = 0 → w.sink.skip = 0
  gap : w.sink.fd = none → 0 < w.fails → w.sink.skip + w.since = min 64 (2 ^ (w.fails - 1))

theorem Retry.Inv.step (hi : w.Inv) (hst : Retry.SoundStep w es w') : w'.Inv := by
  obtain ⟨line, x, flush, direct, r, hemit, rfl, rfl, hsound⟩ := hst
  have hhost : r.1.host ≠ none := by
    rw [emit_host hi.host hemit]
    exact hi.host
  cases emit_failing hi.host hemit with
  | skipped hfd hskip hfd' hskip' hback _ =>
      have hpos : 0 < w.fails := by
        by_contra hzero
        have hnone := hi.fresh hfd (by omega)
        omega
      have hgap := hi.gap hfd hpos
      rw [after_skipped hfd hskip]
      refine ⟨hhost, fun hne => absurd hfd' hne, fun _ => ?_, fun _ hzero => ?_, fun _ _ => ?_⟩
      · exact hback.trans (hi.backoff hfd)
      · exact absurd hzero (by simp only; omega)
      · simp only
        omega
  | refused hatt hfd' hskip' hback _ =>
      have hb := hi.backoff hatt.1
      rw [after_failed (.inr hatt) hfd']
      refine ⟨hhost, fun hne => absurd hfd' hne, fun _ => ?_, fun _ hzero => ?_, fun _ _ => ?_⟩
      · rw [hback, hb, doubled_pow]
      · cases hzero
      · simp only [hskip', hb, Nat.add_zero, Nat.add_sub_cancel]
  | kept hs hfd' hback _ =>
      rw [after_kept hfd']
      refine ⟨hhost, fun _ => ?_, fun hnone => absurd hnone hfd', fun hnone => absurd hnone hfd',
        fun hnone => absurd hnone hfd'⟩
      exact hback.trans (backoff_one hi.held hs)
  | dropped hs hfd' hskip' hback hhard =>
      have hzero : w.fails = 0 := by
        by_contra hne
        exact hsound (by omega) hhard
      have hone := backoff_one hi.held hs
      rw [hone] at hskip' hback
      rw [after_failed (tried hs) hfd']
      refine ⟨hhost, fun hne => absurd hfd' hne, fun _ => ?_, fun _ h => ?_, fun _ _ => ?_⟩
      · simp only [hback, hzero]
        decide
      · cases h
      · simp only [hskip', hzero]
        decide

theorem Retry.run_inv {h : List Byte} {port : Nat}
    (hr : Run Retry.SoundStep (Retry.start h port) es w) : w.Inv := by
  refine hr.invariant (I := fun _ w => w.Inv) ?_ fun _ _ _ _ _ hi hst => hi.step hst
  refine ⟨by simp [Retry.start, LogSink.start], fun hne => absurd rfl hne, fun _ => rfl,
    fun _ _ => rfl, fun _ hpos => ?_⟩
  exact absurd hpos (by simp [Retry.start])

theorem Retry.Inv.widened (hi : w.Inv) : w.Widened := by
  intro hatt hpos
  have hgap := hi.gap hatt.1 hpos
  have hskip := hatt.2
  omega

/-! ## A late failure behind another -/

structure Retry.Held (w : Retry α) : Prop where
  host : w.sink.host ≠ none
  backoff : w.sink.fd ≠ none → w.sink.backoff = 1

theorem Retry.Held.step (hi : w.Held) (hst : Retry.Step w es w') : w'.Held := by
  obtain ⟨line, x, flush, direct, r, hemit, rfl, rfl⟩ := hst
  refine ⟨?_, ?_⟩
  · rw [after_sink, emit_host hi.host hemit]
    exact hi.host
  · rw [after_sink]
    intro hne
    cases emit_failing hi.host hemit with
    | skipped _ _ hfd' _ _ _ => exact absurd hfd' hne
    | refused _ hfd' _ _ _ => exact absurd hfd' hne
    | kept hs _ hback _ => exact hback.trans (backoff_one hi.backoff hs)
    | dropped _ hfd' _ _ _ => exact absurd hfd' hne

theorem Retry.run_held {h : List Byte} {port : Nat}
    (hr : Run Retry.Step (Retry.start h port) es w) : w.Held := by
  refine hr.invariant (I := fun _ w => w.Held) ?_ fun _ _ _ _ _ hi hst => hi.step hst
  exact ⟨by simp [Retry.start, LogSink.start], fun hne => absurd rfl hne⟩

/-- A write that fails for good behind another failed attempt leaves a gap of one record. -/
theorem Retry.Held.dropped (hi : w.Held)
    (hemit : logSinkEmit w.sink line (failing x flush direct) = some r)
    (hhard : w.sink.HardFails x flush direct) :
    (w.after r.1).sink.fd = none ∧ (w.after r.1).sink.skip = 1 ∧
      (w.after r.1).fails = w.fails + 1 ∧ (w.after r.1).since = 0 := by
  cases emit_failing hi.host hemit with
  | skipped _ _ _ _ _ hsoft => exact absurd hhard hsoft
  | refused _ _ _ _ hsoft => exact absurd hhard hsoft
  | kept _ _ _ hsoft => exact absurd hhard hsoft
  | dropped hs hfd' hskip' _ _ =>
      rw [after_failed (tried hs) hfd']
      refine ⟨hfd', ?_, rfl, rfl⟩
      exact hskip'.trans (backoff_one hi.backoff hs)

theorem not_widened_of_short (hhost : w.sink.host ≠ none) (hfd : w.sink.fd = none)
    (hskip : w.sink.skip = 1) (hfails : 2 ≤ w.fails) (hsince : w.since = 0)
    (hst : Retry.Step w es w') : ¬ w'.Widened := by
  obtain ⟨line, x, flush, direct, r, hemit, rfl, rfl⟩ := hst
  have hnot : ¬ w.sink.Attempts := by
    intro hatt
    have hzero := hatt.2
    omega
  have hnone : ¬ (w.sink.fd ≠ none ∨ w.sink.Attempts) := by
    rintro (hne | hatt)
    · exact hne hfd
    · exact hnot hatt
  intro hwide
  cases emit_failing hhost hemit with
  | skipped _ _ hfd' hskip' _ _ =>
      rw [after_skipped hfd (by omega)] at hwide
      have hatt : r.1.Attempts := ⟨hfd', by omega⟩
      have hle := hwide hatt (show 0 < w.fails by omega)
      have hpow : 2 ^ 1 ≤ 2 ^ (w.fails - 1) := Nat.pow_le_pow_right (by decide) (by omega)
      simp only [hsince] at hle
      omega
  | refused hatt _ _ _ _ => exact hnot hatt
  | kept hs _ _ _ => exact hnone (tried hs)
  | dropped hs _ _ _ _ => exact hnone (tried hs)

end Vlog.Runner
