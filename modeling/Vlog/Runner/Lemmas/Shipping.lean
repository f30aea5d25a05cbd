import Vlog.Runner.Shipping

/-!
# The sink keeps its place

What a connection has accepted and what is pending make up whole lines together. `Sent` and
`Emitted` list what `logSinkEmit` can do, and the invariant is proved from them.
-/

namespace Vlog.Runner

open Vlog.Lib Vlog.Libc

variable {α : Type*} {nl : α → Bool} {s t : LogSink α} {c : Nat} {line : List α} {x : Answers}
  {es : List (LogEvent α)}

/-! ## What a call can do -/

def LogSink.flushed (s : LogSink α) (c : Nat) : List (LogEvent α) :=
  if s.pend.length ≠ 0 then [.write c s.pend] else []

def LogSink.emptied (s : LogSink α) : LogSink α := { s with pend := [] }

inductive Wrote (s : LogSink α) (c : Nat) (line : List α) (x : WriteAnswer) :
    List (LogEvent α) → LogSink α → Prop
  | whole : Wrote s c line x [.write c line] s
  | short (w errno) : x = .wrote w errno → w < line.length →
      Wrote s c line x (.write c (line.take w) :: (s.keepOrDrop c errno).2)
        (logPend (s.keepOrDrop c errno).1 line)
  | fails (errno) : x = .failed errno →
      Wrote s c line x (s.keepOrDrop c errno).2 (logPend (s.keepOrDrop c errno).1 line)

theorem writeLine_wrote {y : WriteAnswer} {r : LogSink α × List (LogEvent α)}
    (h : s.writeLine c line y = some r) : Wrote s c line y r.2 r.1 := by
  unfold LogSink.writeLine at h
  cases y with
  | failed errno =>
      cases h
      exact .fails errno rfl
  | wrote w errno =>
      simp only at h
      split at h
      · rename_i hw
        split at h
        · cases h
          exact .whole
        · cases h
          exact .short w errno rfl (by omega)
      · cases h

inductive Sent (s : LogSink α) (c : Nat) (line : List α) (x : Answers) :
    List (LogEvent α) → LogSink α → Prop
  | flushShort (w) : Sent s c line x [.write c (s.pend.take w)]
      (logPend { s with pend := s.pend.drop w } line)
  | flushFails (errno) : x.flush = .failed errno → s.pend ≠ [] →
      Sent s c line x (s.keepOrDrop c errno).2 (logPend (s.keepOrDrop c errno).1 line)
  | direct {fs t} : Wrote s.emptied c line x.direct fs t → Sent s c line x (s.flushed c ++ fs) t

theorem send_sent {r : LogSink α × List (LogEvent α)} (h : s.send c line x = some r) :
    Sent s c line x r.2 r.1 := by
  unfold LogSink.send at h
  by_cases hp : s.pend.length ≠ 0
  · rw [if_pos hp] at h
    split at h
    · split at h
      · split at h
        · obtain ⟨r', hr', rfl⟩ := Option.map_eq_some_iff.mp h
          have hd := Sent.direct (s := s) (x := x) (writeLine_wrote hr')
          rwa [LogSink.flushed, if_pos hp] at hd
        · cases h
          exact .flushShort _
      · cases h
    · rename_i errno hx
      cases h
      exact .flushFails errno hx (by simpa using hp)
  · rw [if_neg hp] at h
    have hnil : s.pend = [] := by simpa using hp
    have hs : s.emptied = s := by
      obtain ⟨_, _, _, _, _, pend, _⟩ := s
      cases hnil
      rfl
    have hd := Sent.direct (s := s) (x := x) (hs.symm ▸ writeLine_wrote h)
    rwa [LogSink.flushed, if_neg hp, List.nil_append] at hd

def LogSink.opening (s : LogSink α) : LogSink α :=
  { s with fd := some s.opened, opened := s.opened + 1, backoff := 1 }

inductive Emitted (s : LogSink α) (line : List α) (x : Answers) :
    List (LogEvent α) → LogSink α → Prop
  | off : Emitted s line x [] s
  | skipped : s.fd = none → Emitted s line x [] (logPend { s with skip := s.skip - 1 } line)
  | refused : s.fd = none → Emitted s line x (logSinkConnect s x.connect).2 (logPend s.backOff line)
  | opened {fs t} : s.fd = none → Sent s.opening s.opened line x fs t →
      Emitted s line x ((logSinkConnect s x.connect).2 ++ fs) t
  | sent {c fs t} : s.fd = some c → Sent s c line x fs t → Emitted s line x fs t

theorem emit_emitted {r : LogSink α × List (LogEvent α)} (h : logSinkEmit s line x = some r) :
    Emitted s line x r.2 r.1 := by
  unfold logSinkEmit at h
  split at h
  · cases h
    exact .off
  · split at h
    · rename_i c hfd
      exact .sent hfd (send_sent h)
    · rename_i hfd
      split at h
      · cases h
        exact .skipped hfd
      · simp only at h
        split at h
        · obtain ⟨r', hr', rfl⟩ := Option.map_eq_some_iff.mp h
          exact .opened hfd (send_sent hr')
        · cases h
          exact .refused hfd

theorem connect_events (s : LogSink α) (y : ConnectAnswer) :
    (logSinkConnect s y).2 = [] ∨ ∃ ip port, (logSinkConnect s y).2 = [.connect ip port] := by
  unfold logSinkConnect
  cases s.host with
  | none => exact .inl rfl
  | some host =>
      simp only
      split
      · exact .inl rfl
      · split
        · exact .inr ⟨_, _, rfl⟩
        · exact .inl rfl

theorem flushed_cases (s : LogSink α) (c : Nat) :
    s.flushed c = [.write c s.pend] ∨ s.pend = [] ∧ s.flushed c = [] := by
  unfold LogSink.flushed
  by_cases hp : s.pend = []
  · exact .inr ⟨hp, if_neg (by simp [hp])⟩
  · exact .inl (if_pos (by simpa using hp))

/-! ## Wires -/

@[simp] theorem wireOf_nil (c : Nat) : wireOf c ([] : List (LogEvent α)) = [] := rfl

@[simp] theorem wireOf_append (c : Nat) (es fs : List (LogEvent α)) :
    wireOf c (es ++ fs) = wireOf c es ++ wireOf c fs := by simp [wireOf]

@[simp] theorem wireOf_write (c c' : Nat) (bs : List α) (es : List (LogEvent α)) :
    wireOf c (.write c' bs :: es) = (if c' = c then bs else []) ++ wireOf c es := by simp [wireOf]

@[simp] theorem wireOf_connect (c : Nat) (s : LogSink α) (y : ConnectAnswer) :
    wireOf c (logSinkConnect s y).2 = [] := by
  rcases connect_events s y with h | ⟨ip, port, h⟩
  · rw [h]
    rfl
  · rw [h]
    rfl

@[simp] theorem wireOf_keepOrDrop (c c' : Nat) (s : LogSink α) (errno : Errno) :
    wireOf c (s.keepOrDrop c' errno).2 = [] := by
  unfold LogSink.keepOrDrop
  split <;> rfl

@[simp] theorem wireOf_flushed (c c' : Nat) (s : LogSink α) :
    wireOf c (s.flushed c') = if c' = c then s.pend else [] := by
  rcases flushed_cases s c' with h | ⟨hnil, h⟩
  · simp [h]
  · simp [h, hnil]

@[simp] theorem logPend_fd (s : LogSink α) (line : List α) : (logPend s line).fd = s.fd := by
  unfold logPend
  split <;> rfl

@[simp] theorem logPend_opened (s : LogSink α) (line : List α) :
    (logPend s line).opened = s.opened := by
  unfold logPend
  split <;> rfl

/-! ## A place in the lines -/

/-- What has been accepted and what is pending are lines of `L`, in their order and none twice. -/
def InPlace (L : List (List α)) (front pend : List α) : Prop :=
  ∃ ls : List (List α), ls.Sublist L ∧ ls.flatten = front ++ pend

variable {L : List (List α)} {front pend : List α}

theorem InPlace.logPend (h : InPlace L front s.pend) (line : List α) :
    InPlace (L ++ cutLines nl line) front (logPend s line).pend := by
  obtain ⟨ls, hsub, hls⟩ := h
  unfold Runner.logPend
  split
  · exact ⟨ls, hsub.trans (List.sublist_append_left _ _), hls⟩
  · refine ⟨ls ++ cutLines nl line, hsub.append_right _, ?_⟩
    simp [hls, cutLines_flatten]

theorem InPlace.more (h : InPlace L front pend) (M : List (List α)) :
    InPlace (L ++ M) front pend := by
  obtain ⟨ls, hsub, hls⟩ := h
  exact ⟨ls, hsub.trans (List.sublist_append_left _ _), hls⟩

theorem InPlace.accepted {a b : List α} (h : InPlace L front (a ++ b)) : InPlace L (front ++ a) b := by
  obtain ⟨ls, hsub, hls⟩ := h
  exact ⟨ls, hsub, by simp [hls]⟩

theorem InPlace.whole (h : InPlace L front []) (line : List α) :
    InPlace (L ++ cutLines nl line) (front ++ line) [] := by
  obtain ⟨ls, hsub, hls⟩ := h
  exact ⟨ls ++ cutLines nl line, hsub.append_right _, by simp [hls, cutLines_flatten]⟩

/-- At the end of a line the connection can be given up without losing the place. -/
theorem InPlace.dropped (h : InPlace L front pend) (hL : ∀ l ∈ L, IsLine nl l)
    (hb : front = [] ∨ EndsLine nl front) : InPlace L [] pend := by
  obtain ⟨ls, hsub, hls⟩ := h
  obtain ⟨ls₁, ls₂, rfl, _, rfl⟩ := flatten_split_boundary (fun l hl => hL l (hsub.subset hl)) hls hb
  exact ⟨ls₂, (List.sublist_append_right _ _).trans hsub, rfl⟩

theorem InPlace.wholeLines (h : InPlace L front pend) (hL : ∀ l ∈ L, IsLine nl l) :
    WholeLines nl L front := by
  obtain ⟨ls, hsub, hls⟩ := h
  exact .of_flatten hL hsub pend hls

/-! ## One call -/

@[simp] theorem keepOrDrop_pend (s : LogSink α) (c : Nat) (errno : Errno) :
    (s.keepOrDrop c errno).1.pend = s.pend := by
  unfold LogSink.keepOrDrop
  split <;> rfl

@[simp] theorem keepOrDrop_opened (s : LogSink α) (c : Nat) (errno : Errno) :
    (s.keepOrDrop c errno).1.opened = s.opened := by
  unfold LogSink.keepOrDrop
  split <;> rfl

theorem keepOrDrop_fd (s : LogSink α) (c : Nat) (errno : Errno) :
    (s.keepOrDrop c errno).1.fd = if logWouldBlock errno then s.fd else none := by
  unfold LogSink.keepOrDrop
  split <;> rfl

theorem keepOrDrop_held (hfd : s.fd = some c) (errno : Errno) :
    (s.keepOrDrop c errno).1.fd = some c ∨ (s.keepOrDrop c errno).1.fd = none := by
  rw [keepOrDrop_fd]
  split
  · exact .inl hfd
  · exact .inr rfl

/-- The place of the sink: on the connection it holds, or at a line to start the next one with. -/
def LogSink.Placed (s : LogSink α) (L : List (List α)) (front : List α) : Prop :=
  InPlace L (if s.fd.isSome then front else []) s.pend

structure Kept (nl : α → Bool) (s : LogSink α) (c : Nat) (L : List (List α)) (front : List α)
    (es : List (LogEvent α)) (t : LogSink α) : Prop where
  others : ∀ c', c' ≠ c → wireOf c' es = []
  opened : t.opened = s.opened
  fd : t.fd = some c ∨ t.fd = none
  whole : WholeLines nl L (front ++ wireOf c es)
  placed : t.Placed L (front ++ wireOf c es)

/-- A call whose last write is the line's keeps the place, unless that write stops short and the
connection is kept. -/
theorem Wrote.kept {y : WriteAnswer} (h : Wrote s c line y es t) (hL : ∀ l ∈ L, IsLine nl l)
    (hline : EndsLine nl line) (hfd : s.fd = some c) (hp : s.pend = []) (hpl : InPlace L front [])
    (hy : ∀ k errno, y = .wrote k errno → k < line.length → logWouldBlock errno = false) :
    Kept nl s c (L ++ cutLines nl line) front es t := by
  have hL' : ∀ l ∈ L ++ cutLines nl line, IsLine nl l := by
    intro l hl
    rcases List.mem_append.mp hl with hl | hl
    · exact hL l hl
    · exact cutLines_isLine hline l hl
  have hpend : ∀ u : LogSink α, u.pend = [] → ∀ front', InPlace L front' [] →
      InPlace (L ++ cutLines nl line) front' (logPend u line).pend := by
    intro u hu front' hin
    exact InPlace.logPend (hu ▸ hin) line
  cases h with
  | whole =>
      have hin : InPlace (L ++ cutLines nl line) (front ++ line) [] := hpl.whole line
      exact ⟨fun c' hc' => by simp [hc'.symm], rfl, .inl hfd, by simpa using hin.wholeLines hL',
        by simpa [LogSink.Placed, hfd, hp] using hin⟩
  | short w errno hyw hw =>
      have hb := hy w errno hyw hw
      have hnone : (s.keepOrDrop c errno).1.fd = none := by simp [keepOrDrop_fd, hb]
      refine ⟨fun c' hc' => by simp [hc'.symm], by simp, .inr (by simp [hnone]), ?_, ?_⟩
      · obtain ⟨ls, hsub, hls⟩ := hpl
        refine WholeLines.of_flatten hL' (hsub.append_right _) (line.drop w) ?_
        simp [hls, cutLines_flatten]
      · have hin : InPlace L [] ([] : List α) := ⟨[], List.nil_sublist _, rfl⟩
        simpa [LogSink.Placed, hnone] using hpend _ (by simp [hp]) [] hin
  | fails errno hye =>
      refine ⟨fun c' _ => by simp, by simp, ?_, ?_, ?_⟩
      · rw [logPend_fd]
        exact keepOrDrop_held hfd errno
      · simpa using (hpl.wholeLines hL).append (cutLines nl line)
      · have hin : InPlace L [] ([] : List α) := ⟨[], List.nil_sublist _, rfl⟩
        have hfront : InPlace L (if (s.keepOrDrop c errno).1.fd.isSome then front else []) [] := by
          split
          · exact hpl
          · exact hin
        simpa [LogSink.Placed] using hpend _ (by simp [hp]) _ hfront

theorem Sent.kept (h : Sent s c line x es t) (hL : ∀ l ∈ L, IsLine nl l)
    (hline : EndsLine nl line) (hfd : s.fd = some c) (hpl : InPlace L front s.pend)
    (hdirect : ∀ k errno, x.direct = .wrote k errno → k < line.length →
      logWouldBlock errno = false)
    (hflush : ∀ errno, s.pend ≠ [] → x.flush = .failed errno → logWouldBlock errno = false →
      front = [] ∨ EndsLine nl front) :
    Kept nl s c (L ++ cutLines nl line) front es t := by
  cases h with
  | flushShort w =>
      have hin : InPlace L (front ++ s.pend.take w) (s.pend.drop w) :=
        InPlace.accepted (by simpa using hpl)
      refine ⟨fun c' hc' => by simp [hc'.symm], by simp, .inl (by simp [hfd]), ?_, ?_⟩
      · simpa using (hin.wholeLines hL).append (cutLines nl line)
      · have hkeep : InPlace (L ++ cutLines nl line) (front ++ s.pend.take w)
            (logPend { s with pend := s.pend.drop w } line).pend := InPlace.logPend hin line
        simpa [LogSink.Placed, hfd] using hkeep
  | flushFails errno hx hne =>
      refine ⟨fun c' _ => by simp, by simp, ?_, ?_, ?_⟩
      · rw [logPend_fd]
        exact keepOrDrop_held hfd errno
      · simpa using (hpl.wholeLines hL).append (cutLines nl line)
      · have hfront : InPlace L (if (s.keepOrDrop c errno).1.fd.isSome then front else [])
            (s.keepOrDrop c errno).1.pend := by
          rw [keepOrDrop_pend, keepOrDrop_fd]
          cases hb : logWouldBlock errno with
          | true => simpa [hfd] using hpl
          | false => simpa using hpl.dropped hL (hflush errno hne hx hb)
        simpa [LogSink.Placed] using hfront.logPend line
  | direct hw =>
      have hin : InPlace L (front ++ s.pend) [] := InPlace.accepted (by simpa using hpl)
      have hk := hw.kept hL hline hfd rfl hin hdirect
      exact ⟨fun c' hc' => by simp [hc'.symm, hk.others c' hc'], hk.opened, hk.fd,
        by simpa using hk.whole, by simpa using hk.placed⟩

/-! ## Runs -/

structure Shipping.Inv (nl : α → Bool) (w : Shipping α) : Prop where
  lines : ∀ l ∈ w.lines, IsLine nl l
  fresh : ∀ c, w.sink.opened ≤ c → w.wire c = []
  live : ∀ c, w.sink.fd = some c → c < w.sink.opened
  placed : w.sink.Placed w.lines (w.sink.fd.elim [] w.wire)
  whole : ∀ c, WholeLines nl w.lines (w.wire c)

theorem Shipping.Inv.emitted_lines {w : Shipping α} (hi : w.Inv nl) (hline : EndsLine nl line) :
    ∀ l ∈ w.lines ++ cutLines nl line, IsLine nl l := by
  intro l hl
  rcases List.mem_append.mp hl with hl | hl
  · exact hi.lines l hl
  · exact cutLines_isLine hline l hl

theorem Shipping.Inv.unsent {w : Shipping α} (hi : w.Inv nl) (hline : EndsLine nl line)
    (hno : ∀ c, wireOf c es = []) (hfd : t.fd = none) (hopened : t.opened = w.sink.opened)
    (hin : InPlace (w.lines ++ cutLines nl line) [] t.pend) :
    (w.emitted nl line (t, es)).Inv nl where
  lines := hi.emitted_lines hline
  fresh c hc := by
    have hfresh := hi.fresh c (hopened ▸ hc)
    simp [Shipping.emitted, hno, hfresh]
  live c hc := by simp [Shipping.emitted, hfd] at hc
  placed := by simpa [LogSink.Placed, Shipping.emitted, hfd] using hin
  whole c := by simpa [Shipping.emitted, hno] using (hi.whole c).append (cutLines nl line)

theorem Shipping.Inv.sent {w : Shipping α} (hi : w.Inv nl) (hline : EndsLine nl line)
    (hc : c < s.opened) (hle : w.sink.opened ≤ s.opened)
    (hk : Kept nl s c (w.lines ++ cutLines nl line) (w.wire c) es t) :
    (w.emitted nl line (t, es)).Inv nl where
  lines := hi.emitted_lines hline
  fresh c' hc' := by
    have hopened := hk.opened
    simp only [Shipping.emitted] at hc' ⊢
    have hne : c' ≠ c := by omega
    rw [hi.fresh c' (by omega), hk.others c' hne, List.nil_append]
  live c' hc' := by
    have hopened := hk.opened
    simp only [Shipping.emitted] at hc' ⊢
    rcases hk.fd with hfd | hfd
    · rw [hfd] at hc'
      cases hc'
      omega
    · simp [hfd] at hc'
  placed := by
    have hpl := hk.placed
    rcases hk.fd with hfd | hfd <;> simpa [LogSink.Placed, Shipping.emitted, hfd] using hpl
  whole c' := by
    by_cases hc' : c' = c
    · subst hc'
      exact hk.whole
    · simpa [Shipping.emitted, hk.others c' hc'] using (hi.whole c').append (cutLines nl line)

theorem Shipping.Inv.step {w w' : Shipping α} (hi : w.Inv nl) (hst : Shipping.SoundStep nl w es w') :
    w'.Inv nl := by
  obtain ⟨line, x, r, hline, hemit, rfl, rfl, hsound⟩ := hst
  have hplaced := hi.placed
  obtain ⟨t, fs⟩ := r
  have he : Emitted w.sink line x fs t := emit_emitted hemit
  cases he with
  | off =>
      have hin := hplaced.more (cutLines nl line)
      exact ⟨hi.emitted_lines hline, fun c hc => by simpa [Shipping.emitted] using hi.fresh c hc,
        hi.live, by simpa [LogSink.Placed, Shipping.emitted] using hin,
        fun c => by simpa [Shipping.emitted] using (hi.whole c).append (cutLines nl line)⟩
  | skipped hfd =>
      simp only [LogSink.Placed, hfd, Option.isSome_none, Option.elim_none] at hplaced
      exact hi.unsent hline (fun _ => rfl) (by simpa using hfd) (by simp)
        (InPlace.logPend (s := { w.sink with skip := w.sink.skip - 1 }) hplaced line)
  | refused hfd =>
      simp only [LogSink.Placed, hfd, Option.isSome_none, Option.elim_none] at hplaced
      exact hi.unsent hline (by simp) (by simpa [LogSink.backOff] using hfd)
        (by simp [LogSink.backOff]) (InPlace.logPend (s := w.sink.backOff) hplaced line)
  | @opened gs _ hfd hs =>
      simp only [LogSink.Placed, hfd, Option.isSome_none, Option.elim_none] at hplaced
      have hfresh := hi.fresh w.sink.opened (Nat.le_refl _)
      have hk := hs.kept hi.lines hline rfl (by simpa [LogSink.opening] using hplaced)
        hsound.direct fun _ _ _ _ => .inl rfl
      have hinv := hi.sent hline (Nat.lt_succ_self _) (Nat.le_succ _) (hfresh.symm ▸ hk)
      simpa [Shipping.emitted] using hinv
  | @sent c _ _ hfd hs =>
      simp only [LogSink.Placed, hfd, Option.isSome_some, Option.elim_some] at hplaced
      have hk := hs.kept hi.lines hline hfd hplaced hsound.direct fun errno hne hx hb =>
        hsound.flush c errno hfd hne hx hb
      exact hi.sent hline (hi.live c hfd) (Nat.le_refl _) hk

theorem Shipping.run_inv {host : Option (List Byte)} {port : Nat} {w : Shipping α}
    (hr : Run (Shipping.SoundStep nl) (Shipping.start host port) es w) : w.Inv nl := by
  refine hr.invariant (I := fun _ w => w.Inv nl) ?_ fun _ _ _ _ _ hi hst => hi.step hst
  have hnil : InPlace ([] : List (List α)) [] [] := ⟨[], List.Sublist.refl _, rfl⟩
  have hempty : WholeLines nl [] ([] : List α) := ⟨[], [], rfl, by simp, .inl ⟨rfl, by simp⟩⟩
  exact ⟨by simp [Shipping.start], fun _ _ => rfl, by simp [Shipping.start, LogSink.start], hnil,
    fun _ => hempty⟩

end Vlog.Runner
