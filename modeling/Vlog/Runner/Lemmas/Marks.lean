import Vlog.Runner.Marks
import Vlog.Runner.Lemmas.Ledger

/-!
# The ends of records

A call adds the end of its own record at most once behind what was accepted and pending. Over all
connections of a sink the ends of records are accepted in the order of the records, none twice.
-/

namespace Vlog.Runner

open Vlog.Lib Vlog.Libc

/-! ## What a call adds -/

section

variable {α : Type*} {s t : LogSink α} {c : Nat} {line : List α} {x : Answers}
  {es : List (LogEvent α)}

/-- What a call adds to the accepted and pending bytes: the line, a part of it that a last write
accepted, both, or nothing. -/
inductive Fresh (line : List α) : List α → Prop
  | none : Fresh line []
  | whole : Fresh line line
  | cut (w) : w < line.length → Fresh line (line.take w)
  | again (w) : w < line.length → Fresh line (line.take w ++ line)

def Grown (line before after : List α) : Prop := ∃ fresh, Fresh line fresh ∧ after = before ++ fresh

theorem Grown.pended (own : List α) {pend : List α} {u : LogSink α}
    (hown : own = [] ∨ ∃ w, w < line.length ∧ own = line.take w)
    (hfront : written es ++ u.pend = pend ++ own)
    (hempty : own = [] ∨ u.pend = []) :
    Grown line pend (written es ++ (logPend u line).pend) := by
  rcases logPend_pend u line with ⟨hpend, _⟩ | ⟨hpend, _⟩
  · refine ⟨own ++ line, ?_, ?_⟩
    · rcases hown with rfl | ⟨w, hw, rfl⟩
      · exact .whole
      · exact .again w hw
    · rw [hpend, ← List.append_assoc, hfront, List.append_assoc]
  · refine ⟨own, ?_, by rw [hpend, hfront]⟩
    rcases hown with rfl | ⟨w, hw, rfl⟩
    · exact .none
    · exact .cut w hw

theorem Sent.grown (h : Sent s c line x es t) : Grown line s.pend (written es ++ t.pend) := by
  cases h with
  | flushShort w => exact .pended [] (.inl rfl) (by simp) (.inl rfl)
  | flushFails errno _ _ => exact .pended [] (.inl rfl) (by simp) (.inl rfl)
  | direct hwrote =>
      cases hwrote with
      | whole => exact ⟨line, .whole, by simp [LogSink.emptied]⟩
      | short w errno _ hw =>
          exact .pended _ (.inr ⟨w, hw, rfl⟩) (by simp [LogSink.emptied])
            (.inr (by simp [LogSink.emptied]))
      | fails errno _ => exact .pended [] (.inl rfl) (by simp [LogSink.emptied]) (.inl rfl)

theorem Emitted.grown (h : Emitted s line x es t) :
    Grown line s.pend (written es ++ t.pend) := by
  cases h with
  | off => exact ⟨[], .none, by simp⟩
  | skipped _ => exact .pended [] (.inl rfl) (by simp) (.inl rfl)
  | refused _ => exact .pended [] (.inl rfl) (by simp [LogSink.backOff]) (.inl rfl)
  | opened _ hs => simpa [LogSink.opening] using hs.grown
  | sent _ hs => exact hs.grown

/-! ## Where it is accepted -/

theorem Wrote.wire {y : WriteAnswer} (h : Wrote s c line y es t) (c' : Nat) :
    wireOf c' es = if c = c' then written es else [] := by
  cases h with
  | whole => simp
  | short w errno _ _ => simp
  | fails errno _ => simp

theorem Wrote.opened {y : WriteAnswer} (h : Wrote s c line y es t) : t.opened = s.opened := by
  cases h with
  | whole => rfl
  | short w errno _ _ => simp
  | fails errno _ => simp

theorem Wrote.fd {y : WriteAnswer} (h : Wrote s c line y es t) (hfd : s.fd = some c) :
    t.fd = some c ∨ t.fd = none := by
  cases h with
  | whole => exact .inl hfd
  | short w errno _ _ | fails errno _ =>
      rw [logPend_fd]
      exact keepOrDrop_held hfd errno

theorem Sent.wire (h : Sent s c line x es t) (c' : Nat) :
    wireOf c' es = if c = c' then written es else [] := by
  cases h with
  | flushShort w => simp
  | flushFails errno _ _ => simp
  | direct hw =>
      rw [wireOf_append, wireOf_flushed, hw.wire, written_append, written_flushed]
      split
      · rfl
      · rfl

theorem Sent.opened (h : Sent s c line x es t) : t.opened = s.opened := by
  cases h with
  | flushShort w => simp
  | flushFails errno _ _ => simp
  | direct hw => exact hw.opened

theorem Sent.fd (h : Sent s c line x es t) (hfd : s.fd = some c) : t.fd = some c ∨ t.fd = none := by
  cases h with
  | flushShort w => exact .inl (by simpa using hfd)
  | flushFails errno _ _ =>
      rw [logPend_fd]
      exact keepOrDrop_held hfd errno
  | direct hw => exact hw.fd hfd

end

/-! ## All connections -/

section

variable {α : Type*} {nl : α → Bool} {line : List α} {x : Answers} {w : Shipping α}

/-- The connection that the sink holds is the last one opened, and none behind it has been used. -/
structure Shipping.Latest (w : Shipping α) : Prop where
  held : ∀ c, w.sink.fd = some c → c + 1 = w.sink.opened
  unused : ∀ c, w.sink.opened ≤ c → w.wire c = []

theorem accepted_held {c : Nat} {es : List (LogEvent α)} {t : LogSink α}
    (hc : c + 1 = w.sink.opened) (ht : t.opened = w.sink.opened)
    (hwire : ∀ c', wireOf c' es = if c = c' then written es else []) :
    (w.emitted nl line (t, es)).accepted = w.accepted ++ written es := by
  have hothers : (List.range c).flatMap (fun c' => w.wire c' ++ wireOf c' es) =
      (List.range c).flatMap w.wire := by
    apply List.flatMap_congr
    intro c' hc'
    have hlt := List.mem_range.mp hc'
    rw [hwire, if_neg (by omega), List.append_nil]
  simp only [Shipping.accepted, Shipping.emitted, ht, ← hc, List.range_succ, List.flatMap_append,
    List.flatMap_singleton, hothers, hwire c, if_pos, List.append_assoc]

theorem Shipping.Latest.sent {c : Nat} {es : List (LogEvent α)} {t : LogSink α}
    (hunused : ∀ c, w.sink.opened ≤ c → w.wire c = []) (hfd : w.sink.fd = some c)
    (hc : c + 1 = w.sink.opened) (hs : Sent w.sink c line x es t) :
    (w.emitted nl line (t, es)).Latest ∧
      (w.emitted nl line (t, es)).accepted = w.accepted ++ written es := by
  refine ⟨⟨?_, ?_⟩, accepted_held hc hs.opened hs.wire⟩
  · intro c' hc'
    simp only [Shipping.emitted] at hc' ⊢
    rw [hs.opened]
    rcases hs.fd hfd with ht | ht
    · rw [ht] at hc'
      cases hc'
      exact hc
    · simp [ht] at hc'
  · intro c' hc'
    simp only [Shipping.emitted, hs.opened] at hc' ⊢
    rw [hunused c' hc', hs.wire, if_neg (by omega), List.append_nil]

theorem accepted_silent {es : List (LogEvent α)} {t : LogSink α} (ht : t.opened = w.sink.opened)
    (hwire : ∀ c', wireOf c' es = []) :
    (w.emitted nl line (t, es)).accepted = w.accepted := by
  simp [Shipping.accepted, Shipping.emitted, ht, hwire]

theorem Shipping.Latest.emitted (nl : α → Bool) {r : LogSink α × List (LogEvent α)}
    (hw : w.Latest) (h : logSinkEmit w.sink line x = some r) :
    (w.emitted nl line r).Latest ∧
      (w.emitted nl line r).accepted = w.accepted ++ written r.2 := by
  obtain ⟨t, es⟩ := r
  have he : Emitted w.sink line x es t := emit_emitted h
  have hsilent : t.opened = w.sink.opened → (∀ c', wireOf c' es = []) → t.fd = w.sink.fd →
      (w.emitted nl line (t, es)).Latest := by
    intro hopened hwire hfd
    refine ⟨?_, ?_⟩
    · intro c hc
      rw [show (w.emitted nl line (t, es)).sink = t from rfl] at hc ⊢
      rw [hopened]
      exact hw.held c (hfd ▸ hc)
    · intro c hc
      have hunused := hw.unused c (hopened ▸ hc)
      simp [Shipping.emitted, hunused, hwire]
  cases he with
  | off => exact ⟨hsilent rfl (fun _ => rfl) rfl, by simpa using accepted_silent rfl fun _ => rfl⟩
  | skipped hfd =>
      exact ⟨hsilent (by simp) (fun _ => rfl) (by simp),
        by simpa using accepted_silent (by simp) fun _ => rfl⟩
  | refused hfd =>
      exact ⟨hsilent (by simp [LogSink.backOff]) (by simp) (by simp [LogSink.backOff]),
        by simpa using accepted_silent (by simp [LogSink.backOff]) (by simp)⟩
  | @opened fs _ hfd hs =>
      -- The connection opened has accepted nothing yet.
      let w₁ : Shipping α := { w with sink := w.sink.opening }
      have hempty : w₁.accepted = w.accepted := by
        simp [w₁, Shipping.accepted, LogSink.opening, List.range_succ, hw.unused]
      have hsent : (w₁.emitted nl line (t, fs)).Latest ∧
          (w₁.emitted nl line (t, fs)).accepted = w₁.accepted ++ written fs :=
        Shipping.Latest.sent (fun c hc => hw.unused c (Nat.le_of_succ_le hc)) rfl rfl hs
      have hsame : w.emitted nl line (t, (logSinkConnect w.sink x.connect).2 ++ fs) =
          w₁.emitted nl line (t, fs) := by simp [w₁, Shipping.emitted]
      rw [hsame, written_append, written_connect, List.nil_append, ← hempty]
      exact hsent
  | @sent c _ _ hfd hs => exact Shipping.Latest.sent hw.unused hfd (hw.held c hfd) hs

end

/-! ## The numbers of the ends -/

@[simp] theorem recordEnds_nil : recordEnds [] = [] := rfl

@[simp] theorem recordEnds_append (bs cs : List (Nat × Byte)) :
    recordEnds (bs ++ cs) = recordEnds bs ++ recordEnds cs := by simp [recordEnds]

theorem recordEnds_none {bs : List (Nat × Byte)} (h : ∀ b ∈ bs, endsRecord b = false) :
    recordEnds bs = [] := by
  have hnone : bs.filter endsRecord = [] := by simpa using h
  rw [recordEnds, hnone, List.map_nil]

theorem numbered_isLine {body : List Byte} (h : newline ∉ body) (n : Nat) :
    IsLine endsRecord (numbered n (body ++ [newline])) := by
  refine ⟨numbered n body, (n, newline), by simp [numbered], rfl, ?_⟩
  intro a ha
  obtain ⟨b, hb, rfl⟩ := List.mem_map.mp ha
  have hne : b ≠ newline := fun e => h (e ▸ hb)
  simpa [endsRecord] using hne

theorem recordEnds_numbered {body : List Byte} (h : newline ∉ body) (n : Nat) :
    recordEnds (numbered n (body ++ [newline])) = [n] := by
  have hbody : recordEnds (numbered n body) = [] := by
    apply recordEnds_none
    intro a ha
    obtain ⟨b, hb, rfl⟩ := List.mem_map.mp ha
    have hne : b ≠ newline := fun e => h (e ▸ hb)
    simpa [endsRecord] using hne
  have hsplit : numbered n (body ++ [newline]) = numbered n body ++ [(n, newline)] := by
    simp [numbered]
  rw [hsplit, recordEnds_append, hbody]
  rfl

theorem Fresh.recordEnds {body : List Byte} {n : Nat} {fresh : List (Nat × Byte)}
    (h : Fresh (numbered n (body ++ [newline])) fresh) (hbody : newline ∉ body) :
    recordEnds fresh = [] ∨ recordEnds fresh = [n] := by
  have hstart : ∀ w, w < (numbered n (body ++ [newline])).length →
      Runner.recordEnds ((numbered n (body ++ [newline])).take w) = [] := by
    intro w hw
    apply recordEnds_none
    have hdrop : (numbered n (body ++ [newline])).drop w ≠ [] :=
      List.ne_nil_of_length_pos (by rw [List.length_drop]; omega)
    exact (numbered_isLine hbody n).start (List.take_append_drop w _).symm hdrop
  cases h with
  | none => exact .inl rfl
  | whole => exact .inr (recordEnds_numbered hbody n)
  | cut w hw => exact .inl (hstart w hw)
  | again w hw =>
      rw [recordEnds_append, hstart w hw, recordEnds_numbered hbody]
      exact .inr rfl

/-! ## A runner that serves requests -/

def recordLine (q : Int32 × List Byte) : List Byte := recordHead q.1 ++ q.2 ++ [newline]

structure Serving.Inv (r : Serving) : Prop where
  ship : r.ship.Inv endsRecord
  latest : r.ship.Latest
  lines : r.ship.lines = r.logged.mapIdx fun n q => numbered n (recordLine q)
  fits : ∀ q ∈ r.logged ++ r.todo, Fits False q.2
  ends : (recordEnds (r.ship.accepted ++ r.ship.sink.pend)).Pairwise (· < ·)
  old : ∀ n ∈ recordEnds (r.ship.accepted ++ r.ship.sink.pend), n < r.logged.length

theorem Serving.start_inv (host : Option (List Byte)) (sinkPort : Nat) (port : UInt16) :
    (Serving.start host sinkPort port).Inv where
  ship := Shipping.run_inv .refl
  latest := ⟨by simp [Serving.start, Shipping.start, LogSink.start], fun _ _ => rfl⟩
  lines := rfl
  fits q hq := by
    cases List.mem_singleton.mp hq
    have hport : (fmtD port.toNat).length ≤ 5 := by
      have hlt := port.toNat_lt
      unfold fmtD
      rw [if_neg (by omega), Int.natAbs_natCast, decimal_length_le (by decide)]
      omega
    refine .plain (Plain.append (by decide) (plain_fmtD _)) ?_
    simp only [List.length_append]
    exact Nat.add_le_add (show (lit "function runner started on port ").length ≤ 3995 by decide) hport
  ends := by simp [Serving.start, Shipping.start, Shipping.accepted, LogSink.start]
  old := by simp [Serving.start, Shipping.start, Shipping.accepted, LogSink.start]

variable {info : Nat → Int × List Byte} {r r' : Serving}

theorem Serving.Inv.step (hi : r.Inv) (hst : Serving.Step info r r') : r'.Inv := by
  cases hst with
  | request request htodo _ hsmug =>
      refine ⟨hi.ship, hi.latest, hi.lines, ?_, hi.ends, hi.old⟩
      intro q hq
      rcases List.mem_append.mp hq with hq | hq
      · exact hi.fits q (List.mem_append_left _ hq)
      · have hfits := handleLine_fits hq
        exact ⟨hfits.short, hfits.nul, fun hm => hsmug (hfits.newline hm)⟩
  | @log q rest line x t htodo hline hemit hsound =>
      have hq := hi.fits q (by simp [htodo])
      have hnl : newline ∉ recordHead q.1 ++ q.2 := record_newline hq.newline
      obtain rfl : recordLine q = line := by
        rw [logrec_fits hq.short] at hline
        exact Logged.line.inj hline
      have hisLine : IsLine endsRecord (r.next (recordLine q)) := numbered_isLine hnl r.logged.length
      obtain ⟨hlatest, hacc⟩ := hi.latest.emitted endsRecord hemit
      obtain ⟨fresh, hfresh, hgrown⟩ := (emit_emitted hemit).grown
      have hbytes : (r.ship.emitted endsRecord (r.next (recordLine q)) t).accepted ++ t.1.pend =
          r.ship.accepted ++ r.ship.sink.pend ++ fresh := by
        rw [hacc, List.append_assoc, hgrown, List.append_assoc]
      have hends : recordEnds fresh = [] ∨ recordEnds fresh = [r.logged.length] :=
        hfresh.recordEnds hnl
      have hall : ∀ n ∈ recordEnds fresh, n = r.logged.length := by
        intro n hn
        rcases hends with he | he
        · simp [he] at hn
        · simpa [he] using hn
      have hsink : (r.ship.emitted endsRecord (r.next (recordLine q)) t).sink = t.1 := rfl
      refine ⟨hi.ship.step ⟨_, x, t, hisLine.endsLine, hemit, rfl, rfl, hsound⟩, hlatest, ?_, ?_, ?_, ?_⟩
      · simp only [Shipping.emitted, hi.lines, hisLine.cutLines, List.mapIdx_append]
        simp [Serving.next]
      · simpa [htodo] using hi.fits
      · rw [hsink, hbytes, recordEnds_append]
        refine List.pairwise_append.mpr ⟨hi.ends, ?_, ?_⟩
        · rcases hends with he | he <;> simp [he]
        · intro a ha b hb
          rw [hall b hb]
          exact hi.old a ha
      · rw [hsink, hbytes, recordEnds_append]
        intro n hn
        rw [List.length_append, List.length_singleton]
        rcases List.mem_append.mp hn with hn | hn
        · exact Nat.lt_succ_of_lt (hi.old n hn)
        · rw [hall n hn]
          exact Nat.lt_succ_self _

/-! ## The ends on each connection -/

theorem recordEnds_take {bs : List (Nat × Byte)} {n m : Nat} (h : m ∈ recordEnds (bs.take n)) :
    m ∈ recordEnds bs := by
  rw [← List.take_append_drop n bs, recordEnds_append]
  exact List.mem_append_left _ h

theorem recordEnds_flatMap (f : Nat → List (Nat × Byte)) (cs : List Nat) :
    recordEnds (cs.flatMap f) = cs.flatMap fun c => recordEnds (f c) := by
  induction cs with
  | nil => rfl
  | cons c cs ih => simp [ih]

theorem Serving.Inv.wires_sorted (hi : r.Inv) :
    (∀ c, (recordEnds (r.ship.wire c)).Pairwise (· < ·)) ∧
      ∀ c c', c < c' → ∀ n ∈ recordEnds (r.ship.wire c), ∀ m ∈ recordEnds (r.ship.wire c'), n < m := by
  have hall : (recordEnds r.ship.accepted).Pairwise (· < ·) := by
    have hends := hi.ends
    rw [recordEnds_append] at hends
    exact (List.pairwise_append.mp hends).1
  have hopened : ∀ c n, n ∈ recordEnds (r.ship.wire c) → c < r.ship.sink.opened := by
    intro c n hn
    by_contra hle
    simp [hi.latest.unused c (Nat.le_of_not_lt hle)] at hn
  rw [Shipping.accepted, recordEnds_flatMap, List.flatMap_def, List.pairwise_flatten] at hall
  obtain ⟨hin, hbetween⟩ := hall
  rw [List.pairwise_map] at hbetween
  refine ⟨?_, ?_⟩
  · intro c
    by_cases hc : c < r.ship.sink.opened
    · exact hin _ (List.mem_map_of_mem (List.mem_range.mpr hc))
    · simp [hi.latest.unused c (Nat.le_of_not_lt hc)]
  · intro c c' hlt n hn m hm
    have hc' := hopened c' m hm
    have hrel := List.pairwise_iff_getElem.mp hbetween c c' (by simpa using hopened c n hn)
      (by simpa using hc') hlt
    simp only [List.getElem_range] at hrel
    exact hrel n hn m hm

theorem Serving.Inv.front_sorted (hi : r.Inv) (c n : Nat) :
    (recordEnds ((r.ship.wire c).take n)).Pairwise (· < ·) := by
  have hwire := hi.wires_sorted.1 c
  rw [← List.take_append_drop n (r.ship.wire c), recordEnds_append] at hwire
  exact (List.pairwise_append.mp hwire).1

end Vlog.Runner
