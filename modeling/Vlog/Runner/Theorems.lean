import Vlog.Runner.Lemmas.Address
import Vlog.Runner.Lemmas.Count
import Vlog.Runner.Lemmas.Retry
import Vlog.Runner.Lemmas.Server
import Vlog.Runner.Lemmas.Sum

/-!
# The guarantees of the runner

The format of a record between the runner and the collector, the records that requests lead to, the
lines that arrive on a collector's connections, the addresses of collectors, and what clients are answered.
-/

namespace Vlog.Runner

open Vlog.Lib Vlog.Libc Vlog.Emulator

/-! ## One record -/

/-- A record's line fits its buffer, ends with its only newline, and is one record to the collector
in whatever pieces it is read. -/
theorem logrec_roundTrip (level : Int32) {text : List Byte} (hnul : nul ∉ text)
    (hnl : newline ∉ text) (hlen : (recordHead level).length + text.length ≤ intMax) :
    ∃ line, logrec level text = .line line ∧ line.length ≤ 4095 ∧
      (∃ body, line = body ++ [newline] ∧ newline ∉ body) ∧
      ∀ nl c chunks, c.buf = [] → chunks.flatten = line →
        let r : Record :=
          { seq := nl.seq, level := level.toUInt32
            bytes := text.take (4094 - (recordHead level).length) }
        feedChunks nl c chunks =
          ({ store := logstoreAppend nl.store r, seq := nl.seq + 1 }, c,
            [.line c.serial (recordHead level ++ r.bytes) r]) := by
  have hhead := recordHead_length level
  have hsub : ∀ b ∈ recordText level text, b ∈ text := fun b => List.mem_of_mem_take
  have hnl' : newline ∉ recordText level text := fun h => hnl (hsub _ h)
  have hnul' : nul ∉ recordText level text := fun h => hnul (hsub _ h)
  have htext : (recordText level text).length ≤ 4094 - (recordHead level).length := by
    simp [recordText, lineMaxLen]
  refine ⟨_, logrec_line level text hlen, ?_, ⟨_, rfl, record_newline hnl'⟩, ?_⟩
  · simp only [List.length_append, List.length_singleton]
    omega
  · intro nl c chunks hc hchunks
    rw [feedChunks_flatten, hchunks, feed_record nl c level hc hnul' hnl' (by omega) []]
    rfl

/-- A text of 2^31 bytes, whose length `vsnprintf` cannot return, is not logged at all. -/
theorem logrec_roundTrip_huge :
    ¬ ∀ (level : Int32) (text : List Byte), nul ∉ text → newline ∉ text →
      ∃ line, logrec level text = .line line := by
  intro h
  obtain ⟨text, htext⟩ : ∃ text, text = List.replicate 2147483648 space := ⟨_, rfl⟩
  have hmem : ∀ b, b ≠ space → b ∉ text := by
    intro b hb hm
    rw [htext] at hm
    exact hb (List.eq_of_mem_replicate hm)
  obtain ⟨line, hline⟩ := h 0 text (hmem _ (by decide)) (hmem _ (by decide))
  have hlen : intMax < text.length := by
    rw [htext, List.length_replicate]
    decide
  rw [logrec_huge 0 hlen] at hline
  cases hline

theorem logrec_roundTrip_negative : ∃ line, logrec (-1) (lit "gone") = .line line ∧
    (feedChunks (netlogStart logstoreOpen) { fd := 4, buf := [], serial := 0 }
      [line.take 3, line.drop 3]).1.store.file = lit "[0] LVL? gone" ++ [newline] := by
  have hnul : nul ∉ lit "gone" := by decide
  have hnl : newline ∉ lit "gone" := by decide
  obtain ⟨line, hline, _, _, hfeed⟩ := logrec_roundTrip (-1) hnul hnl (by decide)
  refine ⟨line, hline, ?_⟩
  rw [hfeed _ _ _ rfl (by simp)]
  decide

/-! ## The records of a request -/

/-- A request's log calls are one line and one record each, unless it is a `RUN ` line whose name, up
to the first space and 63 bytes, holds a newline. -/
theorem handleLine_oneRecordEach (info : Nat → Int × List Byte) (request : List Byte) (rn : Nat) :
    OneRecordEach (handleLine info request rn).logs ↔ ¬ Smuggles request := by
  constructor
  · intro h hs
    obtain ⟨q, hq, hnl⟩ := handleLine_smuggled hs
    exact h.1 q hq hnl
  · intro hs
    apply oneRecordEach
    intro q hq
    have hfits := handleLine_fits hq
    exact ⟨hfits.short, hfits.nul, fun hm => hs (hfits.newline hm)⟩

def forgery : List Byte := lit "RUN a" ++ [newline] ++ lit "3 b"

theorem handleLine_oneRecordEach_forgery :
    ¬ ∀ info request rn, OneRecordEach (handleLine info request rn).logs := by
  intro h
  have hrecords := (h runnerPlatformInfo forgery 512).2.2 (netlogStart logstoreOpen)
    { fd := 4, buf := [], serial := 0 } rfl
  revert hrecords
  decide

/-! ## The lines on a collector's connections -/

/-- Whatever the symbols are: a run in which no direct write stops short under an `errno` that says
"would block", and no flush fails for good inside a line, delivers on each connection whole lines in
the order of their emission, none twice, and at most the start of a later one. -/
theorem logSink_wholeLines {α : Type*} {nl : α → Bool} {host : Option (List Byte)} {port : Nat}
    {es : List (LogEvent α)} {w : Shipping α}
    (hr : Run (Shipping.SoundStep nl) (Shipping.start host port) es w) (c : Nat) :
    WholeLines nl w.lines (w.wire c) :=
  (Shipping.run_inv hr).whole c

def isNewline (b : Byte) : Bool := b == newline

def collectorAddr : Option (List Byte) := some (lit "127.0.0.1")

def connecting (w : WriteAnswer) : Answers :=
  { connect := { socket := true, connected := false, errno := .einprogress }
    flush := .failed (.other 0)
    direct := w }

def flushing (f w : WriteAnswer) : Answers :=
  { connect := { socket := false, connected := false, errno := .other 0 }, flush := f, direct := w }

theorem endsLine_snoc (text : List Byte) : EndsLine isNewline (text ++ [newline]) :=
  ⟨text, newline, rfl, rfl⟩

/-- The write of the first line stops after two bytes with the `errno` of `connect` still standing;
the whole line is held back and sent again behind them. -/
theorem logSink_wholeLines_stale :
    ¬ ∀ (host : Option (List Byte)) port es (w : Shipping Byte),
      Run (Shipping.Step isNewline) (Shipping.start host port) es w →
      ∀ c, WholeLines isNewline w.lines (w.wire c) := by
  intro h
  have h₀ : Run (Shipping.Step isNewline) (Shipping.start collectorAddr 9099) []
      (Shipping.start collectorAddr 9099) := .refl
  have h₁ := h₀.snoc ⟨lit "1 a" ++ [newline], connecting (.wrote 2 .einprogress), _,
    endsLine_snoc _, rfl, rfl, rfl⟩
  have h₂ := h₁.snoc ⟨lit "1 b" ++ [newline], flushing (.wrote 4 .einprogress) (.wrote 4 .einprogress),
    _, endsLine_snoc _, rfl, rfl, rfl⟩
  obtain ⟨ls, t, hwire, ht, hsub⟩ := h _ _ _ _ h₂ 0
  have hwire' : lit "1 1 a" ++ [newline] ++ lit "1 b" ++ [newline] = ls.flatten ++ t := hwire
  have hls : ls.Sublist [lit "1 a" ++ [newline], lit "1 b" ++ [newline]] := by
    rcases hsub with ⟨_, hsub⟩ | ⟨l, _, hsub⟩
    · exact hsub
    · exact (List.sublist_append_left _ _).trans hsub
  have hall : ∀ ls ∈ [lit "1 a" ++ [newline], lit "1 b" ++ [newline]].sublists,
      ls.flatten <+: lit "1 1 a" ++ [newline] ++ lit "1 b" ++ [newline] →
      newline ∈ (lit "1 1 a" ++ [newline] ++ lit "1 b" ++ [newline]).drop ls.flatten.length := by
    decide
  have hnl := hall ls (List.mem_sublists.mpr hls) (hwire' ▸ List.prefix_append _ _)
  rw [hwire', List.drop_left] at hnl
  exact absurd (ht _ hnl) (by decide)

theorem logSink_wholeLines_broken : ∃ es, ∃ w : Shipping Byte,
    Run (Shipping.SoundStep isNewline) (Shipping.start collectorAddr 9099) es w ∧
    w.wire 0 = lit "1 a" ++ [newline] ++ lit "1 " ∧ w.sink.fd = none ∧
    WholeLines isNewline w.lines (w.wire 0) := by
  have h₀ : Run (Shipping.SoundStep isNewline) (Shipping.start collectorAddr 9099) []
      (Shipping.start collectorAddr 9099) := .refl
  have h₁ := h₀.snoc ⟨lit "1 a" ++ [newline], connecting (.failed .enotconn), _, endsLine_snoc _,
    rfl, rfl, rfl, by rintro _ _ ⟨⟩, by rintro _ _ ⟨⟩⟩
  have h₂ := h₁.snoc ⟨lit "1 b" ++ [newline],
    flushing (.wrote 4 .enotconn) (.wrote 2 (.other 32)), _, endsLine_snoc _, rfl, rfl, rfl,
    by rintro _ _ ⟨⟩ _; rfl, by rintro _ _ _ _ ⟨⟩⟩
  exact ⟨_, _, h₂, rfl, rfl, logSink_wholeLines h₂ 0⟩

/-! ## The order of the records -/

/-- In every run with a collector's address: the pending buffer holds at most 2048 bytes, the end of
one record's line and whole lines of later records; no byte is accepted behind one of a later record;
every call accounts for the pending bytes and for its line. The sink does not see the marks. -/
theorem logSink_accounting {h : List Byte} {port : Nat} {es : List (LogEvent (Nat × Byte))}
    {w : Ledger} (hr : Run Ledger.Step (Ledger.start (some h) port) es w) :
    w.sink.pend.length ≤ 2048 ∧ w.Ordered w.sink.pend ∧
      w.accepted.Pairwise (fun a b => a.1 ≤ b.1) ∧
      ∀ line x,
        (∀ r, logSinkEmit w.sink (w.next line) x = some r →
          Accounted w.sink (w.next line) r.2 r.1) ∧
        logSinkEmit (w.sink.map Prod.snd) line x =
          (logSinkEmit w.sink (w.next line) x).map fun r =>
            (r.1.map Prod.snd, r.2.map (LogEvent.map Prod.snd)) := by
  have hi := Ledger.run_inv hr
  refine ⟨hi.bounded, hi.ordered, (List.pairwise_append.mp hi.sorted).1, ?_⟩
  intro line x
  refine ⟨fun r hemit => (emit_inOrder hi.host hemit).accounted, ?_⟩
  have hline : (w.next line).map Prod.snd = line := by simp [Ledger.next, numbered]
  rw [← logSinkEmit_map, hline]

/-- Two records are held back, and the first is cut by a short write. -/
theorem logSink_accounting_cut : ∃ es w,
    Run Ledger.Step (Ledger.start (some (lit "127.0.0.1")) 9099) es w ∧
    w.sink.pend = numbered 0 (lit "a" ++ [newline]) ++ numbered 1 (lit "1 b" ++ [newline]) ∧
    w.accepted = numbered 0 (lit "1 ") ∧ w.Ordered w.sink.pend := by
  have h₀ : Run Ledger.Step (Ledger.start (some (lit "127.0.0.1")) 9099) []
      (Ledger.start (some (lit "127.0.0.1")) 9099) := .refl
  have h₁ := h₀.snoc ⟨lit "1 a" ++ [newline], connecting (.failed .enotconn), _, rfl, rfl, rfl⟩
  have h₂ := h₁.snoc ⟨lit "1 b" ++ [newline],
    flushing (.wrote 2 .enotconn) (.failed .enotconn), _, rfl, rfl, rfl⟩
  exact ⟨_, _, h₂, rfl, rfl, (logSink_accounting h₂).2.1⟩

/-! ## Addresses -/

/-- On every string `parse_ipv4` runs without a fault. It returns 0 with the address exactly for a dotted
quad, and -1 with `*out` as it was for anything else. -/
theorem parseIpv4_accepts {s : List Byte} (hnul : nul ∉ s) (out : UInt32) :
    ∃ rc out', parseIpv4At (s ++ [nul]) out = some (rc, out') ∧
      (rc = 0 ↔ ∃ a b c d, DottedQuad s a b c d) ∧
      (∀ a b c d, DottedQuad s a b c d → out'.toNat = ((a * 256 + b) * 256 + c) * 256 + d) ∧
      (rc ≠ 0 → rc = -1 ∧ out' = out) := by
  rw [parseIpv4At_string hnul]
  cases hp : parseIpv4 s with
  | some v =>
      refine ⟨0, v, rfl, ⟨fun _ => quad_of_parseIpv4 hp, fun _ => rfl⟩, ?_, fun h => absurd rfl h⟩
      intro a b c d hquad
      have hv := parseIpv4_quad hquad
      rw [hp] at hv
      cases hv
      obtain ⟨_, _, _, _, _, ha, hb, hc, hd⟩ := hquad
      have hfit : ((a * 256 + b) * 256 + c) * 256 + d < UInt32.size := by
        have h₁ := ha.le
        have h₂ := hb.le
        have h₃ := hc.le
        have h₄ := hd.le
        unfold UInt32.size
        omega
      exact UInt32.toNat_ofNat_of_lt' hfit
  | none =>
      have hno : ∀ a b c d, ¬ DottedQuad s a b c d := by
        intro a b c d hquad
        rw [parseIpv4_quad hquad] at hp
        cases hp
      refine ⟨-1, out, rfl, ⟨fun h => absurd h (by decide), ?_⟩, ?_, fun _ => ⟨rfl, rfl⟩⟩
      · rintro ⟨a, b, c, d, hquad⟩
        exact absurd hquad (hno a b c d)
      · intro a b c d hquad
        exact absurd hquad (hno a b c d)

theorem parseIpv4_accepts_leadingZeros : ∃ out', parseIpv4At (lit "10.0.0.0007" ++ [nul]) 5 =
    some (0, out') ∧ out'.toNat = 167772167 := by
  obtain ⟨rc, out', hrun, hrc, hvalue, _⟩ := parseIpv4_accepts (s := lit "10.0.0.0007") (by decide) 5
  have hquad : DottedQuad (lit "10.0.0.0007") 10 0 0 7 := by
    refine ⟨lit "10", lit "0", lit "0", lit "0007", by decide, ?_, ?_, ?_, ?_⟩
    all_goals exact ⟨by decide, List.all_eq_true.mp (by decide), by decide, by decide⟩
  have hzero := hrc.mpr ⟨_, _, _, _, hquad⟩
  subst hzero
  exact ⟨out', hrun, hvalue _ _ _ _ hquad⟩

/-! ## A collector that is down -/

/-- As long as no write fails for good behind the first failed attempt, the gap before each attempt is
at least as wide as the number of failures before it asks for. A write that does fail so leaves a gap
of one record, and the attempt behind it comes too early. -/
theorem retry_gapWidens {α : Type*} {h : List Byte} {port : Nat} {es : List (LogEvent α)}
    {w : Retry α} (hr : Run Retry.Step (Retry.start h port) es w) :
    (Run Retry.SoundStep (Retry.start h port) es w → w.Widened) ∧
      ∀ line x flush direct r, logSinkEmit w.sink line (failing x flush direct) = some r →
        0 < w.fails → w.sink.HardFails x flush direct →
        ∀ es' w', Retry.Step (w.after r.1) es' w' → ¬ w'.Widened := by
  refine ⟨fun hsound => (Retry.run_inv hsound).widened, ?_⟩
  intro line x flush direct r hemit hpos hhard es' w' hst
  have hheld := Retry.run_held hr
  obtain ⟨hfd, hskip, hfails, hsince⟩ := hheld.dropped hemit hhard
  have hhost : (w.after r.1).sink.host ≠ none := by
    rw [after_sink, emit_host hheld.host hemit]
    exact hheld.host
  exact not_widened_of_short hhost hfd hskip (by omega) hsince hst

def refused : ConnectAnswer := { socket := true, connected := false, errno := .other 111 }

def inProgress : ConnectAnswer := { socket := true, connected := false, errno := .einprogress }

/-- Two connections are begun, and each is refused when the next record is written to it. The gap
behind the second failure is one record. -/
theorem retry_gapWidens_late :
    ¬ ∀ (h : List Byte) port es (w : Retry Byte), parseIpv4 h ≠ none →
      Run Retry.Step (Retry.start h port) es w → w.Widened := by
  intro h
  have h₀ : Run (@Retry.Step Byte) (Retry.start (lit "127.0.0.1") 9099) []
      (Retry.start (lit "127.0.0.1") 9099) := .refl
  have h₁ := h₀.snoc ⟨lit "1 a" ++ [newline], inProgress, .enotconn, .enotconn, _, rfl, rfl, rfl⟩
  have h₂ := h₁.snoc ⟨lit "1 b" ++ [newline], inProgress, .other 111, .enotconn, _, rfl, rfl, rfl⟩
  have h₃ := h₂.snoc ⟨lit "1 c" ++ [newline], inProgress, .enotconn, .enotconn, _, rfl, rfl, rfl⟩
  have h₄ := h₃.snoc ⟨lit "1 d" ++ [newline], inProgress, .enotconn, .enotconn, _, rfl, rfl, rfl⟩
  have h₅ := h₄.snoc ⟨lit "1 e" ++ [newline], inProgress, .other 111, .enotconn, _, rfl, rfl, rfl⟩
  have h₆ := h₅.snoc ⟨lit "1 f" ++ [newline], inProgress, .enotconn, .enotconn, _, rfl, rfl, rfl⟩
  have hwide := h _ _ _ _ (by decide) h₆ (by decide) (by decide)
  revert hwide
  decide

/-- Two attempts are refused. The gap behind the second is two records. -/
theorem retry_gapWidens_refused : ∃ es, ∃ w : Retry Byte,
    Run Retry.Step (Retry.start (lit "127.0.0.1") 9099) es w ∧ w.fails = 2 ∧ w.since = 2 ∧
    w.sink.Attempts ∧ w.Widened := by
  have h₀ : Run (@Retry.SoundStep Byte) (Retry.start (lit "127.0.0.1") 9099) []
      (Retry.start (lit "127.0.0.1") 9099) := .refl
  have h₁ := h₀.snoc ⟨lit "1 a" ++ [newline], refused, .enotconn, .enotconn, _, rfl, rfl, rfl,
    fun hpos => absurd hpos (by decide)⟩
  have h₂ := h₁.snoc ⟨lit "1 b" ++ [newline], refused, .enotconn, .enotconn, _, rfl, rfl, rfl,
    fun _ hhard => absurd hhard.2 (by decide)⟩
  have h₃ := h₂.snoc ⟨lit "1 c" ++ [newline], refused, .enotconn, .enotconn, _, rfl, rfl, rfl,
    fun _ hhard => absurd hhard.2 (by decide)⟩
  have h₄ := h₃.snoc ⟨lit "1 d" ++ [newline], refused, .enotconn, .enotconn, _, rfl, rfl, rfl,
    fun _ hhard => absurd hhard.2 (by decide)⟩
  have h₅ := h₄.snoc ⟨lit "1 e" ++ [newline], refused, .enotconn, .enotconn, _, rfl, rfl, rfl,
    fun _ hhard => absurd hhard.2 (by decide)⟩
  have hr : Run Retry.Step (Retry.start (lit "127.0.0.1") 9099) _ _ :=
    h₅.mono fun _ _ _ ⟨line, x, flush, direct, r, hemit, hes, hw, _⟩ =>
      ⟨line, x, flush, direct, r, hemit, hes, hw⟩
  exact ⟨_, _, hr, rfl, rfl, by decide, (retry_gapWidens hr).1 h₅⟩

/-! ## Requests and replies -/

/-- The replies to a request of at most 4095 bytes, line by line of the protocol. The built-in
functions and the reply print the same text into larger buffers, too. -/
theorem handleLine_grammar {request : List Byte} (hlen : request.length ≤ 4095) :
    let line := requestLine request
    let h := handleLine runnerPlatformInfo request replySize
    (h.reply = lit "PONG" ++ [newline] ↔ line = lit "PING") ∧
    (h.reply = lit "OK platform=posix" ++ [newline] ↔ line = lit "INFO") ∧
    (h.reply = lit "OK wordcount sum" ++ [newline] ↔ line = lit "FUNCS") ∧
    (∀ f ∈ funcs, ∀ payload, Calls line f.1 payload →
      h.reply = (if (f.2 payload outSize).1 = 0 then lit "OK " else lit "ERR ") ++
          (f.2 payload outSize).2 ++ [newline] ∧
        h.invoked = (if (f.2 payload outSize).1 = 0 then [f.1] else []) ∧
        ∀ n, outSize ≤ n → f.2 payload n = f.2 payload outSize) ∧
    (line ≠ lit "PING" → line ≠ lit "INFO" → line ≠ lit "FUNCS" →
      (∀ f ∈ funcs, ∀ payload, ¬ Calls line f.1 payload) →
      lit "ERR " <+: h.reply ∧ h.invoked = [] ∧ ∃ text, h.logs = [(logWarn, text)]) ∧
    (∃ body, h.reply = body ++ [newline] ∧ newline ∉ body) ∧ h.reply.length < replySize ∧
    ∀ rn, replySize ≤ rn → handleLine runnerPlatformInfo request rn = h := by
  intro line h
  obtain ⟨h', ha, hrn⟩ := handleLine_answered hlen
  have hh : h = h' := hrn _ (Nat.le_refl _)
  rw [hh]
  refine ⟨?_, ?_, ?_, ?_, ?_, ha.oneLine.1, ha.oneLine.2, hrn⟩
  · exact ha.fixed_iff (p := (lit "PING", lit "PONG")) (by decide)
  · exact ha.fixed_iff (p := (lit "INFO", lit "OK platform=posix")) (by decide)
  · exact ha.fixed_iff (p := (lit "FUNCS", lit "OK wordcount sum")) (by decide)
  · intro f hf payload hcalls
    have hline := (requestLine_length_le request).trans hlen
    obtain ⟨hreply, hinvoked⟩ := ha.calls hf hcalls
    exact ⟨hreply, hinvoked, fun n hn => funcs_outSize hf ((calls_length hcalls).trans hline) hn⟩
  · intro h₁ h₂ h₃ hno
    apply ha.others ?_ hno
    intro p hp
    simp only [fixedAnswers, List.mem_cons, List.not_mem_nil, or_false] at hp
    rcases hp with rfl | rfl | rfl
    · exact h₁
    · exact h₂
    · exact h₃

theorem handleLine_grammar_spaces :
    (handleLine runnerPlatformInfo (lit "RUN   wordcount  a b\r\n") replySize).reply =
      lit "OK 2" ++ [newline] := by
  have hlen : (lit "RUN   wordcount  a b\r\n").length ≤ 4095 := by decide
  obtain ⟨_, _, _, hcalls, _⟩ := handleLine_grammar hlen
  have h := hcalls (lit "wordcount", fnWordcount) (by simp [funcs]) (lit " a b")
    ⟨lit "  ", by simp [lit, space], .inr (by decide)⟩
  rw [h.1]
  decide

/-- A line is answered alike however it is cut into pieces, exactly if it does not start with `PING`,
`INFO`, `FUNCS` or `RUN `. A first piece that is the line up to its end gets the answer of the line. -/
theorem replyTo_segmentation (info : Nat → Int × List Byte) (line : List Byte) :
    ((∀ chunks, (∀ c ∈ chunks, c ≠ []) → chunks.flatten = line →
        replyTo info chunks = replyTo info [line]) ↔ ¬ StartsCommand line) ∧
      ∀ first chunks, first ≠ [] → (first :: chunks).flatten = line →
        requestLine (first.take (lineMaxLen - 1)) = requestLine (line.take (lineMaxLen - 1)) →
        replyTo info (first :: chunks) = replyTo info [line] := by
  refine ⟨⟨?_, ?_⟩, ?_⟩
  · intro hall hstart
    obtain ⟨first, hne, ⟨rest, hrest⟩, hother⟩ :=
      @exists_other_answer info line hstart
    by_cases hnil : rest = []
    · subst hnil
      rw [List.append_nil] at hrest
      exact hother (congrArg (fun l => replyTo info [l]) hrest)
    · exact hother (hall [first, rest] (by simp [hne, hnil]) (by simpa using hrest))
  · intro hno chunks hne hflat
    cases chunks with
    | nil =>
        subst hflat
        rfl
    | cons first chunks =>
        have hfirst := hne first List.mem_cons_self
        have hpre : first <+: line := ⟨chunks.flatten, by simpa using hflat⟩
        have hline : line ≠ [] := by
          rintro rfl
          exact hfirst (List.prefix_nil.mp hpre)
        have hbad : ∀ piece, piece <+: line →
            ¬ StartsCommand (requestLine (piece.take (lineMaxLen - 1))) := by
          intro piece hpiece h
          exact hno (h.of_prefix
            ((requestLine_front _).trans ((List.take_prefix _ _).trans hpiece)))
        have hone : replyTo info (first :: chunks) = replyTo info [first] := rfl
        rw [hone, replyTo_notCommand hfirst (hbad _ hpre),
          replyTo_notCommand hline (hbad _ List.prefix_rfl)]
  · intro first chunks hne hflat hsame
    have hpre : first <+: line := ⟨chunks.flatten, by simpa using hflat⟩
    have hline : line ≠ [] := by
      rintro rfl
      exact hne (List.prefix_nil.mp hpre)
    have hone : replyTo info (first :: chunks) = replyTo info [first] := rfl
    rw [hone, replyTo_singleton hne, replyTo_singleton hline, handleLine_congr hsame]

/-- The first piece of this line is a command of its own, with one word less. -/
theorem replyTo_segmentation_cut :
    ¬ ∀ (info : Nat → Int × List Byte) (body : List Byte) chunks, body.length + 1 ≤ 4095 →
      (∀ c ∈ chunks, c ≠ []) → chunks.flatten = body ++ [newline] →
      replyTo info chunks = replyTo info [body ++ [newline]] := by
  intro h
  have hcut := h runnerPlatformInfo (lit "RUN wordcount a b")
    [lit "RUN wordcount a", lit " b" ++ [newline]] (by decide) (by decide) (by decide)
  revert hcut
  decide

/-! ## The process -/

/-- The process is alive behind a run exactly if no step of it wrote to a broken connection. As long
as it lives, a connection whose records are shipped without such a write gets its reply. -/
theorem runner_alive {host : Option (List Byte)} {port : Nat} {es : List ServerEvent} {p : Proc}
    (hr : Run Proc.Step (Proc.start host port) es p) :
    (p.terminated = false ↔ Run Proc.IntactStep (Proc.start host port) es p) ∧
      (p.terminated = false → ∀ (info : Nat → Int × List Byte) (v : Visit) reply q,
        replyTo info v.chunks = some reply → Run Proc.IntactStep p (v.records info) q →
        ∃ q', Run Proc.Step p (v.events info) q') := by
  refine ⟨run_alive_iff rfl hr, ?_⟩
  intro hlive info v reply q hreply hrecords
  have hsteps : Run Proc.Step p (v.records info) q :=
    hrecords.mono fun _ _ _ ⟨e, he, hnext, _⟩ => ⟨e, he, hnext⟩
  have hq : q.terminated = false := (run_alive_iff hlive hsteps).mpr hrecords
  have hnext : q.next (.reply reply v.client) =
      some { q with terminated := v.client.sigpipe } := by simp [Proc.next, hq]
  rw [Visit.events, hreply]
  exact ⟨_, hsteps.snoc ⟨_, rfl, hnext⟩⟩

/-- The collector goes away between two records, and its connection is found broken by the direct
write of the second. -/
theorem runner_alive_restart :
    ¬ ∀ (host : Option (List Byte)) port es p, Run Proc.Step (Proc.start host port) es p →
      p.terminated = false := by
  intro h
  have h₀ : Run Proc.Step (Proc.start collectorAddr 9099) [] (Proc.start collectorAddr 9099) := .refl
  have h₁ := h₀.snoc ⟨.record (lit "1 a" ++ [newline]) (connecting (.wrote 4 .einprogress)), rfl, rfl⟩
  have h₂ := h₁.snoc ⟨.record (lit "1 b" ++ [newline])
    (flushing (.failed epipe) (.failed epipe)), rfl, rfl⟩
  have hlive := h _ _ _ _ h₂
  revert hlive
  decide

theorem runner_alive_refused : ∃ es p, Run Proc.Step (Proc.start collectorAddr 9099) es p ∧
    p.sink.fd = none ∧ p.sink.pend = lit "1 a" ++ [newline] ∧ p.terminated = false := by
  have h₀ : Run Proc.Step (Proc.start collectorAddr 9099) [] (Proc.start collectorAddr 9099) := .refl
  have h₁ := h₀.snoc ⟨.record (lit "1 a" ++ [newline]) (connecting (.failed (.other 111))), rfl, rfl⟩
  have h₂ := h₁.snoc ⟨.reply (lit "PONG" ++ [newline]) (.wrote 5 .einprogress), rfl, rfl⟩
  refine ⟨_, _, h₂, rfl, rfl, (runner_alive h₂).1.mpr ?_⟩
  have i₀ : Run Proc.IntactStep (Proc.start collectorAddr 9099) []
      (Proc.start collectorAddr 9099) := .refl
  have i₁ := i₀.snoc ⟨.record (lit "1 a" ++ [newline]) (connecting (.failed (.other 111))), rfl, rfl, by
    intro _
    refine ⟨fun hne => absurd rfl hne, fun _ => ?_⟩
    intro he
    cases he⟩
  exact i₁.snoc ⟨.reply (lit "PONG" ++ [newline]) (.wrote 5 .einprogress), rfl, rfl, by
    intro he
    cases he⟩

/-! ## Sums -/

/-- For a payload of numerals: no addition overflows, and the reply is the exact sum or an error,
exactly if all partial sums of the values that `strtoll` gives are in the range of `long long`, and
the values cut to that range have the same sum as the values themselves. -/
theorem fnSum_exact {payload : List Byte} (hall : ∀ w ∈ words isspace payload, Numeric w) :
    (NoOverflow payload ∧ (fnSum payload outSize = (0, fmtD (values payload).sum) ∨
        (fnSum payload outSize).1 ≠ 0)) ↔
      PartialSumsFit 0 (values payload) ∧
        ((values payload).map clamp).sum = (values payload).sum := by
  obtain ⟨hfit, hresult⟩ := sumAdds_range 0 payload hall
  have hzero : (0 : Int64).toInt = 0 := by decide
  rw [hzero] at hfit hresult
  rw [← hfit]
  apply and_congr_right
  intro hsafe
  obtain ⟨t, ht, hsum⟩ := hresult hsafe
  rw [zero_add] at hsum
  have hlen := fmtD_int64_length t
  have hout : fnSum payload outSize = (0, fmtD t.toInt) := by
    rw [fnSum, ht]
    simp only [vsnprintf_fits (show (fmtD t.toInt).length < outSize by unfold outSize; omega)]
  rw [hout, ← hsum]
  constructor
  · intro h
    rcases h with h | h
    · exact fmtD_inj (congrArg Prod.snd h)
    · exact absurd rfl h
  · intro h
    rw [h]
    exact .inl rfl

theorem fnSum_exact_signs : NoOverflow (lit "10 +20\t-30") ∧
    (fnSum (lit "10 +20\t-30") outSize = (0, fmtD (values (lit "10 +20\t-30")).sum) ∨
      (fnSum (lit "10 +20\t-30") outSize).1 ≠ 0) := by
  have hwords : words isspace (lit "10 +20\t-30") = [lit "10", lit "+20", lit "-30"] := by decide
  have hall : ∀ w ∈ words isspace (lit "10 +20\t-30"), Numeric w := by
    rw [hwords]
    intro w hw
    simp only [List.mem_cons, List.not_mem_nil, or_false] at hw
    rcases hw with rfl | rfl | rfl
    · exact numeric_digits (by decide) (by decide)
    · exact numeric_sign (.inl rfl) (by decide) (by decide)
    · exact numeric_sign (.inr rfl) (by decide) (by decide)
  have hvalues : values (lit "10 +20\t-30") = [10, 20, -30] := by
    rw [values, hwords]
    decide
  apply (fnSum_exact hall).mpr
  rw [hvalues]
  decide

/-- One token above the largest `long long` is answered with that largest number. -/
theorem fnSum_exact_saturated :
    ¬ ∀ payload, (∀ w ∈ words isspace payload, Numeric w) →
      NoOverflow payload ∧ (fnSum payload outSize = (0, fmtD (values payload).sum) ∨
        (fnSum payload outSize).1 ≠ 0) := by
  intro h
  have hwords : words isspace (lit "9223372036854775808") = [lit "9223372036854775808"] := by decide
  have hall : ∀ w ∈ words isspace (lit "9223372036854775808"), Numeric w := by
    rw [hwords]
    intro w hw
    cases List.mem_singleton.mp hw
    exact numeric_digits (by decide) (by decide)
  obtain ⟨hsafe, hexact⟩ := h _ hall
  obtain ⟨t, ht, hsum⟩ := (sumAdds_range 0 _ hall).2 hsafe
  have hvalues : values (lit "9223372036854775808") = [9223372036854775808] := by
    rw [values, hwords]
    decide
  have hcut : t.toInt = 9223372036854775807 := by
    rw [hsum, hvalues]
    decide
  simp only [fnSum, ht, hvalues, hcut] at hexact
  revert hexact
  decide

/-- `fn_sum` accepts exactly the payloads of numerals, and answers -1 otherwise, unless all words of the
payload are chains of numerals and one of them is not a single numeral. -/
theorem fnSum_accepts (payload : List Byte) (n : Nat) :
    (((fnSum payload n).1 = 0 ↔ ∀ w ∈ words isspace payload, Numeric w) ∧
        ((¬ ∀ w ∈ words isspace payload, Numeric w) → (fnSum payload n).1 = -1)) ↔
      ((∀ w ∈ words isspace payload, Chain w) → ∀ w ∈ words isspace payload, Numeric w) := by
  obtain ⟨hchain, hrc⟩ := fnSum_rc payload n
  have hsub : (∀ w ∈ words isspace payload, Numeric w) → ∀ w ∈ words isspace payload, Chain w :=
    fun h w hw => .last (h w hw)
  rw [hchain]
  constructor
  · intro h
    exact h.1.mp
  · intro h
    refine ⟨⟨h, hsub⟩, ?_⟩
    intro hnot
    rcases hrc with hzero | hneg
    · exact absurd (h (hchain.mp hzero)) hnot
    · exact hneg

/-- Two numerals without white space between them. -/
theorem fnSum_accepts_glued :
    ¬ ∀ payload n, (fnSum payload n).1 = 0 ↔ ∀ w ∈ words isspace payload, Numeric w := by
  intro h
  have hwords : words isspace (lit "1+2") = [lit "1+2"] := by decide
  have hone : Numeric (lit "1") := numeric_digits (by decide) (by decide)
  have htwo : Numeric (lit "+2") := numeric_sign (.inl rfl) (by decide) (by decide)
  have hsign : ∀ b ∈ (lit "+2").head?, IsSign b := by
    intro b hb
    cases hb
    exact .inl rfl
  have hchain : Chain (lit "1+2") := .cons hone hsign (.last htwo)
  have hrc : (fnSum (lit "1+2") outSize).1 = 0 := by
    apply (fnSum_rc _ _).1.mpr
    rw [hwords]
    intro w hw
    cases List.mem_singleton.mp hw
    exact hchain
  have hnum := (h _ _).mp hrc (lit "1+2") (by rw [hwords]; exact List.mem_singleton_self _)
  have hsplit : lit "1+2" ++ [] = lit "1" ++ lit "+2" := by decide
  have hstop : ∀ b ∈ (lit "+2").head?, isDigit b = false := fun b hb => (sign_not_digit (hsign b hb)).1
  have hglued := numeric_unique hnum hone (by simp) hstop hsplit
  exact absurd hglued.1 (by decide)

/-! ## Counting words -/

/-- `fn_wordcount` prints the number of words of the payload, as far as the buffer holds it. More than 20
bytes hold the count of any string, which a 64-bit address space keeps shorter than 2^64 bytes. The counts
of two pieces around white space add up. -/
theorem fnWordcount_words (payload : List Byte) :
    countWords false 0 payload = (words isspace payload).length ∧
    (∀ n, fnWordcount payload n = (0, (decimal (words isspace payload).length).take (n - 1)) ∧
      (20 < n → payload.length < 2 ^ 64 →
        fnWordcount payload n = (0, decimal (words isspace payload).length))) ∧
    ∀ a w b, isspace w = true →
      countWords false 0 (a ++ w :: b) = countWords false 0 a + countWords false 0 b := by
  refine ⟨countWords_words payload, ?_, ?_⟩
  · intro n
    refine ⟨fnWordcount_text payload n, ?_⟩
    intro hn hlen
    have hle := countWords_le false 0 payload
    rw [countWords_words] at hle
    have hcount : (words isspace payload).length < 10 ^ 20 := by omega
    have hdigits := (decimal_length_le (by decide)).mpr hcount
    rw [fnWordcount_text, List.take_of_length_le (by omega)]
  · intro a w b hw
    rw [countWords_words, countWords_words, countWords_words, words_append_sep hw, List.length_append]

theorem fnWordcount_words_tabs :
    fnWordcount (lit " a\tbc \n d") outSize = (0, lit "3") ∧
      countWords false 0 (lit " a\tbc \n d") =
        countWords false 0 (lit " a") + countWords false 0 (lit "bc \n d") := by
  have hwords : words isspace (lit " a\tbc \n d") = [lit "a", lit "bc", lit "d"] := by decide
  obtain ⟨_, htext, hadd⟩ := fnWordcount_words (lit " a\tbc \n d")
  refine ⟨?_, hadd (lit " a") 9 (lit "bc \n d") (by decide)⟩
  rw [(htext outSize).2 (by decide) (by decide), hwords]
  decide

end Vlog.Runner
