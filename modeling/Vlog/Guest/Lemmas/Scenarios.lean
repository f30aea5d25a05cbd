import Vlog.Guest.Check
import Vlog.Guest.Lemmas.Blob

/-!
# The test guest over a device that follows the contract

For each scenario, what the transcript and the log are when the oracle's parameters are in range.
-/

namespace Vlog.Guest

open Vlog.Lib Vlog.Libc Vlog.Device
open Vlog.Emulator (Record)

variable {p : Priority} {d : SpecDevice p} {α β : Type} {s s' : Seen} {bi : Bootinfo}
  {scratch : List Byte}

/-! ## Where a program ends -/

/-- Every run of the program from `s` ends with `Q`. -/
structure Leads (d : SpecDevice p) (prog : GuestM d.toMmioDevice α) (s : Seen) (Q : α → Seen → Prop) :
    Prop where
  run : ∀ m : Machine d.toMmioDevice, m.seen = s → Q (prog.run m).1 (prog.run m).2.seen

theorem Sim.leads {prog : GuestM d.toMmioDevice α} {a : α} {Q : α → Seen → Prop}
    (h : Sim d prog s a s') (hQ : Q a s') : Leads d prog s Q := by
  constructor
  intro m hm
  obtain ⟨ha, hs⟩ := h m hm
  rw [ha, hs]
  exact hQ

theorem Sim.step {prog : GuestM d.toMmioDevice α} {next : α → GuestM d.toMmioDevice β} {a : α}
    {Q : β → Seen → Prop} (h : Sim d prog s a s') (h' : Leads d (next a) s' Q) :
    Leads d (prog >>= next) s Q := by
  constructor
  intro m hm
  obtain ⟨ha, hs⟩ := h m hm
  subst ha
  exact h'.run _ hs

theorem Leads.bind {prog : GuestM d.toMmioDevice α} {next : α → GuestM d.toMmioDevice β}
    {P : α → Seen → Prop} {Q : β → Seen → Prop} (h : Leads d prog s P)
    (h' : ∀ a s', P a s' → Leads d (next a) s' Q) : Leads d (prog >>= next) s Q := by
  constructor
  intro m hm
  exact (h' _ _ (h.run m hm)).run _ rfl

theorem Leads.mono {prog : GuestM d.toMmioDevice α} {P Q : α → Seen → Prop}
    (h : Leads d prog s P) (hPQ : ∀ a s', P a s' → Q a s') : Leads d prog s Q := by
  constructor
  intro m hm
  exact hPQ _ _ (h.run m hm)

/-! ## Observations -/

theorem obs_sim (key : String) (val : UInt32) :
    Sim d (obs key val) s () (s.print (obsLine key val)) := by
  have htext : s.print (obsLine key val) =
      (((s.print (lit key)).print [UInt8.ofNat '='.toNat]).print (lit "0x" ++ fmtX8 val)).print
        [newline] := by
    simp only [print_print, obsLine, List.append_assoc]
    rfl
  rw [htext]
  exact (puts_sim _).bind ((putc_sim _).bind ((puthex_sim _).bind (putc_sim _)))

theorem devErr_sim {code : UInt8} (h : s.regs.status = statusWord code) :
    Sim d devErr s (if code = errNone then 0 else 1) s := by
  have hsim := vlogStatus_sim (d := d) (s := s)
    (f := fun st => if st &&& statusError ≠ 0 then (1 : UInt32) else 0)
    (by intro st; simp only [status_and_error])
  rw [h, errorBit_word] at hsim
  exact hsim

theorem devErr_success (h : s.regs.status = statusWord errNone) : Sim d devErr s 0 s := by
  have hsim := devErr_sim (d := d) h
  rw [if_pos rfl] at hsim
  exact hsim

theorem devErr_failed {code : UInt8} (h : s.regs.status = statusWord code) (hne : code ≠ errNone) :
    Sim d devErr s 1 s := by
  have hsim := devErr_sim (d := d) h
  rw [if_neg hne] at hsim
  exact hsim

theorem devErrcode_sim {code : UInt8} (h : s.regs.status = statusWord code) :
    Sim d devErrcode s code.toUInt32 s := by
  have hsim := vlogStatus_sim (d := d) (s := s) (f := fun st => (st >>> 8) &&& (0xff : UInt32))
    status_and_code
  rw [h, codeField_word] at hsim
  exact hsim

theorem vlogSeq_sim : Sim d vlogSeq s s.regs.seq s := mmioR32_register (by decide)

theorem logRecord_eq (seq level : UInt32) (msg : List Byte) :
    logRecord seq level msg = Record.text { seq := seq, level := level, bytes := msg } := by
  have hname : levelName level = Vlog.Emulator.levelName level := rfl
  simp [logRecord, Record.text, Record.header, hname]

/-! ## Loops -/

def Seen.loggedTimes (s : Seen) (level : UInt32) (msg : UInt64) (len : UInt32) : Nat → Seen
  | 0 => s
  | count + 1 => (s.logged level msg len).loggedTimes level msg len count

theorem writeTimes_sim (hfit : logFaults bi.scratchAddr bi.scratchLen = []) (err : UInt32) (count : Nat) :
    Sim d (writeTimes bi err count) s err
      (s.loggedTimes bi.level bi.scratchAddr bi.scratchLen count) := by
  induction count generalizing s with
  | zero => exact Sim.pure err
  | succ count ih =>
      refine (vlogWrite_logged hfit).bind ?_
      rw [UInt32.or_zero]
      exact ih

/-- The loop takes the message `count` times, and only the operand registers depend on more. -/
theorem loggedTimes_spec (level : UInt32) (msg : UInt64) (len : UInt32) (count : Nat) :
    (s.loggedTimes level msg len count).regs.seq = s.regs.seq + UInt32.ofNat count ∧
      (s.loggedTimes level msg len count).regs.bytes = s.regs.bytes + UInt32.ofNat count * len ∧
      (s.loggedTimes level msg len count).mem = s.mem ∧
      (s.loggedTimes level msg len count).out = s.out ∧
      (s.loggedTimes level msg len count).log = s.log ++ (List.range count).flatMap fun i =>
        logRecord (s.regs.seq + UInt32.ofNat i) level (s.mem.slice msg.toNat len.toNat) := by
  induction count generalizing s with
  | zero => simp [Seen.loggedTimes]
  | succ count ih =>
      obtain ⟨hseq, hbytes, hmem, hout, hlog⟩ := @ih (s.logged level msg len)
      have hnext : ∀ i, s.regs.seq + 1 + UInt32.ofNat i = s.regs.seq + UInt32.ofNat (i + 1) := by
        intro i
        rw [UInt32.ofNat_add, UInt32.add_assoc, UInt32.add_comm 1]
        rfl
      refine ⟨?_, ?_, hmem, hout, ?_⟩
      · exact hseq.trans (hnext count)
      · refine hbytes.trans ?_
        rw [logged_bytes, UInt32.ofNat_add, UInt32.add_mul, UInt32.add_assoc,
          UInt32.add_comm len, UInt32.ofNat_one, UInt32.one_mul]
      · refine hlog.trans ?_
        simp [List.range_succ_eq_map, List.flatMap_map, hnext, logRecord_eq]

/-! ## Scenarios -/

theorem logOne_leads (hfit : logFaults bi.scratchAddr bi.scratchLen = []) :
    Leads d (logOne bi) s fun _ s' =>
      s'.out = s.out ++ (obsLine "rc" 0 ++ obsLine "err" 0 ++ obsLine "seq" (s.regs.seq + 1)) ∧
      s'.log = s.log ++ logRecord s.regs.seq bi.level
        (s.mem.slice bi.scratchAddr.toNat bi.scratchLen.toNat) := by
  unfold logOne
  apply (vlogWrite_logged hfit).step
  apply (obs_sim _ _).step
  apply (devErr_success rfl).step
  apply (obs_sim _ _).step
  apply vlogSeq_sim.step
  apply (obs_sim _ _).leads
  simp [logRecord_eq]

theorem logMany_leads (hfit : logFaults bi.scratchAddr bi.scratchLen = []) :
    Leads d (logMany bi) s fun _ s' =>
      s'.out = s.out ++ (obsLine "err" 0 ++ obsLine "seq" (s.regs.seq + bi.count)) ∧
      s'.log = s.log ++ (List.range bi.count.toNat).flatMap fun i =>
        logRecord (s.regs.seq + UInt32.ofNat i) bi.level
          (s.mem.slice bi.scratchAddr.toNat bi.scratchLen.toNat) := by
  unfold logMany
  obtain ⟨hseq, -, -, hout, hlog⟩ :=
    loggedTimes_spec (s := s) bi.level bi.scratchAddr bi.scratchLen bi.count.toNat
  apply (writeTimes_sim hfit 0 _).step
  apply (obs_sim _ _).step
  apply vlogSeq_sim.step
  apply (obs_sim _ _).leads
  simp [hseq, hout, hlog]

theorem empty_leads : Leads d (empty bi) s fun _ s' =>
    s'.out = s.out ++ (obsLine "rc" 0 ++ obsLine "err" 0 ++ obsLine "seq" (s.regs.seq + 1)) ∧
      s'.log = s.log ++ logRecord s.regs.seq bi.level [] := by
  have hfit : logFaults bi.scratchAddr 0 = [] := logFaults_eq_nil (by decide) (.inl rfl)
  unfold empty
  apply (vlogWrite_logged hfit).step
  apply (obs_sim _ _).step
  apply (devErr_success rfl).step
  apply (obs_sim _ _).step
  apply vlogSeq_sim.step
  apply (obs_sim _ _).leads
  simp [logRecord_eq, Memory.slice]

theorem maxlen_leads (hfit : logFaults bi.scratchAddr vlogMaxMsg = [])
    (hover : logFaults bi.scratchAddr (vlogMaxMsg + 1) = [errBadLen]) :
    Leads d (maxlen bi) s fun _ s' =>
      s'.out = s.out ++ (obsLine "rc_max" 0 ++ obsLine "seq_after_max" (s.regs.seq + 1) ++
        obsLine "rc_over" errBadLen.toUInt32 ++ obsLine "seq_final" (s.regs.seq + 1)) ∧
      s'.log = s.log ++ logRecord s.regs.seq bi.level
        (s.mem.slice bi.scratchAddr.toNat vlogMaxMsg.toNat) := by
  unfold maxlen
  apply (vlogWrite_logged hfit).step
  apply (obs_sim _ _).step
  apply vlogSeq_sim.step
  apply (obs_sim _ _).step
  apply (vlogWrite_refused hover).step
  apply (obs_sim _ _).step
  apply vlogSeq_sim.step
  apply (obs_sim _ _).leads
  simp [logRecord_eq]

theorem boundary_leads (hfit : logFaults (ramTop - bi.arg0.toUInt64) bi.arg0 = [])
    (hpast : logFaults (ramTop - bi.arg0.toUInt64 + 1) bi.arg0 = [errBadAddr]) :
    Leads d (boundary bi) s fun _ s' =>
      s'.out = s.out ++ (obsLine "rc_at_top" 0 ++ obsLine "seq_after_top" (s.regs.seq + 1) ++
        obsLine "rc_past_top" errBadAddr.toUInt32 ++ obsLine "seq_final" (s.regs.seq + 1)) := by
  unfold boundary
  apply (vlogWrite_logged hfit).step
  apply (obs_sim _ _).step
  apply vlogSeq_sim.step
  apply (obs_sim _ _).step
  apply (vlogWrite_refused hpast).step
  apply (obs_sim _ _).step
  apply vlogSeq_sim.step
  apply (obs_sim _ _).leads
  simp

theorem interleave_leads (hfit : logFaults bi.scratchAddr bi.scratchLen = [])
    (hbad : logFaults bi.arg1.toUInt64 4 = [errBadAddr]) :
    Leads d (interleave bi) s fun _ s' =>
      s'.out = s.out ++ (obsLine "rc1" 0 ++ obsLine "rc2" errBadAddr.toUInt32 ++ obsLine "rc3" 0 ++
        obsLine "seq" (s.regs.seq + 1 + 1)) ∧
      s'.log = s.log ++
        (logRecord s.regs.seq bi.level (s.mem.slice bi.scratchAddr.toNat bi.scratchLen.toNat) ++
          logRecord (s.regs.seq + 1) bi.level
            (s.mem.slice bi.scratchAddr.toNat bi.scratchLen.toNat)) := by
  unfold interleave
  apply (vlogWrite_logged hfit).step
  apply (obs_sim _ _).step
  apply (vlogWrite_refused hbad).step
  apply (obs_sim _ _).step
  apply (vlogWrite_logged hfit).step
  apply (obs_sim _ _).step
  apply vlogSeq_sim.step
  apply (obs_sim _ _).leads
  simp [logRecord_eq]

theorem flush_leads (hfit : logFaults bi.scratchAddr bi.scratchLen = []) :
    Leads d (flush bi) s fun _ s' =>
      s'.out = s.out ++ (obsLine "rc_log" 0 ++ obsLine "err_after_flush" 0 ++
        obsLine "seq" (s.regs.seq + 1)) ∧
      s'.log = s.log ++ logRecord s.regs.seq bi.level
        (s.mem.slice bi.scratchAddr.toNat bi.scratchLen.toNat) := by
  unfold flush
  apply (vlogWrite_logged hfit).step
  apply (obs_sim _ _).step
  apply (mmioW32_cmd (reports_of_outcomes (outcomes_success rfl))).step
  apply (devErr_success rfl).step
  apply (obs_sim _ _).step
  apply vlogSeq_sim.step
  apply (obs_sim _ _).leads
  rw [command_quiet (.inr rfl)]
  simp [logRecord_eq]

/-- The length and the address of the second command are bad together when the length passes the end of
RAM. Then the code is the device's choice. -/
theorem malformed_leads {code : UInt8} (hne : code ≠ errNone)
    (hlen : ∀ s : Seen, Reports d cmdLog (s.request bi.level bi.scratchAddr bi.arg0).regs code)
    (hbad : logFaults bi.arg1.toUInt64 4 = [errBadAddr]) :
    Leads d (malformed bi) s fun _ s' =>
      s'.out = s.out ++ (obsLine "err_badcmd" 1 ++ obsLine "errcode_badcmd" errBadCmd.toUInt32 ++
        obsLine "rc_badlen" code.toUInt32 ++ obsLine "rc_badaddr" errBadAddr.toUInt32 ++
        obsLine "seq" s.regs.seq) ∧
      s'.log = s.log := by
  have hcmd : faults 0x7f s.regs = [errBadCmd] := rfl
  have hunknown := ne_errNone_of_faults hcmd
  have hstatus : ∀ text, ((s.ended errBadCmd).print text).regs.status = statusWord errBadCmd :=
    fun _ => rfl
  unfold malformed
  apply (mmioW32_cmd (reports_of_outcomes (outcomes_single hcmd))).step
  rw [command_failed hunknown]
  apply (devErr_failed rfl hunknown).step
  apply (obs_sim _ _).step
  apply (devErrcode_sim (hstatus _)).step
  apply (obs_sim _ _).step
  apply (vlogWrite_failed hne (hlen _)).step
  apply (obs_sim _ _).step
  apply (vlogWrite_refused hbad).step
  apply (obs_sim _ _).step
  apply vlogSeq_sim.step
  apply (obs_sim _ _).leads
  simp

theorem command_leads (cmd : UInt32) : Leads d (mmioW32 regCmd cmd) s fun _ s' =>
    ∃ code ∈ outcomes p cmd s.regs, s' = s.command cmd code := by
  constructor
  intro m hm
  subst hm
  exact command_cases m cmd

theorem nop_leads (hbad : faults bi.arg0 s.regs ≠ []) : Leads d (nop bi) s fun _ s' =>
    ∃ code ∈ outcomes p bi.arg0 s.regs,
      s'.out = s.out ++ (obsLine "err_after_badcmd" 1 ++
        obsLine "errcode_after_badcmd" code.toUInt32 ++ obsLine "err_after_nop" 0 ++
        obsLine "seq" s.regs.seq) := by
  unfold nop
  apply (command_leads _).bind
  rintro _ _ ⟨code, hcode, rfl⟩
  have hne := (outcomes_failed hbad hcode).2
  rw [command_failed hne]
  apply (devErr_failed rfl hne).step
  apply (obs_sim _ _).step
  apply (devErrcode_sim rfl).step
  apply (obs_sim _ _).step
  apply (mmioW32_cmd (reports_of_outcomes (outcomes_success rfl))).step
  rw [command_quiet (.inl rfl)]
  apply (devErr_success rfl).step
  apply (obs_sim _ _).step
  apply vlogSeq_sim.step
  refine (obs_sim _ _).leads ⟨code, hcode, ?_⟩
  simp

theorem recover_leads (hbad : faults bi.arg0 s.regs ≠ [])
    (hfit : logFaults bi.scratchAddr bi.scratchLen = []) : Leads d (recover bi) s fun _ s' =>
      s'.out = s.out ++ (obsLine "err_after_bad" 1 ++ obsLine "rc" 0 ++ obsLine "err" 0 ++
        obsLine "seq" (s.regs.seq + 1)) ∧
      s'.log = s.log ++ logRecord s.regs.seq bi.level
        (s.mem.slice bi.scratchAddr.toNat bi.scratchLen.toNat) := by
  unfold recover
  apply (command_leads _).bind
  rintro _ _ ⟨code, hcode, rfl⟩
  have hne := (outcomes_failed hbad hcode).2
  rw [command_failed hne]
  apply (devErr_failed rfl hne).step
  apply (obs_sim _ _).step
  apply (logOne_leads hfit).mono
  rintro _ s' ⟨hout, hlog⟩
  constructor
  · rw [hout]
    simp
  · rw [hlog]
    simp

/-- STATUS reads the same before and after a write to it. -/
theorem statusKept_sim (key : String) (v : UInt32) :
    Sim d (do
      let before ← vlogStatus
      mmioW32 regStatus v
      obs key (if (← vlogStatus) = before then 1 else 0)) s () (s.print (obsLine key 1)) := by
  intro m hm
  subst hm
  let m₁ := ((mmioR32 regStatus).run m).2
  let m₂ := ((mmioW32 regStatus v).run m₁).2
  let m₃ := ((mmioR32 regStatus).run m₂).2
  have hview₁ : d.view m₁.dev = d.view m.dev := congrArg World.regs (mmioR32_run m regStatus).2
  have hview₂ : d.view m₂.dev = d.view m₁.dev := (d.writes m₁.dev m₁.mem regStatus v (by decide)).1
  have hread : ((mmioR32 regStatus).run m₂).1 = ((mmioR32 regStatus).run m).1 := by
    rw [(mmioR32_run m₂ regStatus).1, (mmioR32_run m regStatus).1, hview₂, hview₁]
  have hseen : m₃.seen = m.seen :=
    (mmioR32_seen m₂ regStatus).trans
      (mmioW32_operand (by decide) m₁ (mmioR32_seen m regStatus)).2
  have hobs := obs_sim (d := d) key 1 m₃ hseen
  have hrun : (do
      let before ← vlogStatus (d := d.toMmioDevice)
      mmioW32 regStatus v
      obs key (if (← vlogStatus) = before then 1 else 0)).run m =
        (obs key (if ((mmioR32 regStatus).run m₂).1 = ((mmioR32 regStatus).run m).1 then 1
          else 0)).run m₃ := rfl
  rw [hrun, if_pos hread]
  exact hobs

theorem regs_leads : Leads d (regs bi) s fun _ s' =>
    s'.out = s.out ++ (obsLine "msg_lo" bi.arg0 ++ obsLine "msg_hi" bi.arg1 ++
      obsLine "len" bi.count ++ obsLine "level" bi.level ++ obsLine "id_after_ro" vlogMagic ++
      obsLine "seq_after_ro" s.regs.seq ++ obsLine "status_ro_unchanged" 1) := by
  unfold regs
  apply (mmioW32_operand (by decide)).step
  apply (mmioW32_operand (by decide)).step
  apply (mmioW32_operand (by decide)).step
  apply (mmioW32_operand (by decide)).step
  apply (mmioR32_register (by decide)).step
  apply (obs_sim _ _).step
  apply (mmioR32_register (by decide)).step
  apply (obs_sim _ _).step
  apply (mmioR32_register (by decide)).step
  apply (obs_sim _ _).step
  apply (mmioR32_register (by decide)).step
  apply (obs_sim _ _).step
  apply (mmioW32_operand (by decide)).step
  apply (mmioW32_operand (by decide)).step
  apply (mmioR32_register (by decide)).step
  apply (obs_sim _ _).step
  apply vlogSeq_sim.step
  apply (obs_sim _ _).step
  apply (statusKept_sim _ _).leads
  simp [Seen.operand]
  rfl

/-! ## STAT -/

section Stack

variable {a : UInt64} {frame : Frame}

theorem stack_fits (hram : ramBase ≤ a.toNat) (h : a.toNat + statsSize ≤ bootinfoBase.toNat) :
    InRam a statsSize := by
  have hbase : bootinfoBase.toNat = 0x010F0000 := rfl
  refine ⟨hram, ?_⟩
  unfold ramBase ramSize
  omega

theorem add_four (h : a.toNat + statsSize ≤ bootinfoBase.toNat) : (a + 4).toNat = a.toNat + 4 := by
  have hbase : bootinfoBase.toNat = 0x010F0000 := rfl
  have hsize : statsSize = 8 := rfl
  have hfour : (4 : UInt64).toNat = 4 := rfl
  rw [UInt64.toNat_add, hfour]
  exact Nat.mod_eq_of_lt (by omega)

/-- A struct on the stack with both its words set. -/
def Seen.setStats (s : Seen) (a : UInt64) (records bytes : UInt32) : Seen :=
  (s.store a records).store (a + 4) bytes

theorem setStats_loaded {records bytes : UInt32} (hload : Loaded s.mem bi scratch)
    (h : a.toNat + statsSize ≤ bootinfoBase.toNat) :
    Loaded (s.setStats a records bytes).mem bi scratch := by
  have hsize : statsSize = 8 := rfl
  have hnext := add_four h
  apply Loaded.store
  · apply Loaded.store hload
    rw [Memory.leBytes_length]
    omega
  · rw [Memory.leBytes_length]
    omega

theorem setStats_holds {records bytes : UInt32} (h : a.toNat + statsSize ≤ bootinfoBase.toNat) :
    (s.setStats a records bytes).mem.Holds a.toNat (Memory.leBytes 4 records.toNat) := by
  apply Memory.Holds.store Memory.holds_store
  rw [Memory.leBytes_length, add_four h]
  exact .inl le_rfl

theorem filled_loaded {len : UInt32} (hload : Loaded s.mem bi scratch)
    (h : a.toNat + statsSize ≤ bootinfoBase.toNat) : Loaded (s.filled a len).mem bi scratch := by
  rw [filled_mem]
  apply hload.store
  rw [Seen.stats, List.length_append, Memory.leBytes_length, Memory.leBytes_length]
  exact h

theorem filled_holds {len : UInt32} (h : a.toNat + statsSize ≤ bootinfoBase.toNat) :
    (s.filled a len).mem.Holds a.toNat (Memory.leBytes 4 s.regs.seq.toNat) ∧
      (s.filled a len).mem.Holds (a + 4).toNat (Memory.leBytes 4 s.regs.bytes.toNat) := by
  have hholds : (s.filled a len).mem.Holds a.toNat s.stats := Memory.holds_store
  rw [Seen.stats, Memory.holds_append, Memory.leBytes_length, ← add_four h] at hholds
  exact hholds

end Stack

theorem stat_leads {frame : Frame} (hload : Loaded s.mem bi scratch)
    (hfit : logFaults bi.scratchAddr bi.scratchLen = []) (hsmall : bi.arg0.toNat < statsSize)
    (hbad : ¬ InRam bi.arg1.toUInt64 statsSize) (hseq : s.regs.seq = 0) (hbytes : s.regs.bytes = 0) :
    Leads d (stat frame bootinfoBase bi) s fun _ s' =>
      s'.out = s.out ++ (obsLine "stat_rc" 0 ++ obsLine "records" bi.count ++
        obsLine "bytes" (bi.count * bi.scratchLen) ++ obsLine "seq" bi.count ++
        obsLine "small_rc" errBadLen.toUInt32 ++ obsLine "small_untouched" 0x11111111 ++
        obsLine "badaddr_rc" errBadAddr.toUInt32) ∧
      s'.log = s.log ++ logRecords bi.count.toNat bi.level
        (s.mem.slice bi.scratchAddr.toNat bi.scratchLen.toNat) := by
  have hfilled : statFaults frame.st 8 = [] :=
    statFaults_eq_nil (by decide) (stack_fits frame.st_ram frame.st_below)
  have hrefused := statFaults_badLen hsmall (stack_fits frame.small_ram frame.small_below)
  have houtside : statFaults bi.arg1.toUInt64 8 = [errBadAddr] := statFaults_badAddr (by decide) hbad
  obtain ⟨hseq', hbytes', hmem, hout, hlog⟩ :=
    loggedTimes_spec (s := s) bi.level bi.scratchAddr bi.scratchLen bi.count.toNat
  rw [hseq, UInt32.ofNat_toNat, UInt32.zero_add] at hseq'
  rw [hbytes, UInt32.ofNat_toNat, UInt32.zero_add] at hbytes'
  unfold stat
  apply (writeTimes_sim hfit 0 _).step
  generalize s.loggedTimes bi.level bi.scratchAddr bi.scratchLen bi.count.toNat = s₁ at *
  rw [← hmem] at hload
  apply (store32_sim _ _).step
  apply (store32_sim _ _).step
  apply (vlogStat_filled hfilled).step
  let s₂ := (s₁.setStats frame.st 0xdeadbeef 0xdeadbeef).filled frame.st 8
  have hload₂ : Loaded s₂.mem bi scratch :=
    filled_loaded (setStats_loaded hload frame.st_below) frame.st_below
  obtain ⟨hrecords, htotal⟩ : s₂.mem.Holds frame.st.toNat (Memory.leBytes 4 s₁.regs.seq.toNat) ∧
      s₂.mem.Holds (frame.st + 4).toNat (Memory.leBytes 4 s₁.regs.bytes.toNat) :=
    filled_holds frame.st_below
  apply (obs_sim _ _).step
  refine (load32_holds (v := s₁.regs.seq) ?_).step ?_
  · exact hrecords
  apply (obs_sim _ _).step
  refine (load32_holds (v := s₁.regs.bytes) ?_).step ?_
  · exact htotal
  apply (obs_sim _ _).step
  apply vlogSeq_sim.step
  apply (obs_sim _ _).step
  apply (store32_sim _ _).step
  apply (store32_sim _ _).step
  refine (@readBootinfo_sim _ _ _ bi scratch ?_).step ?_
  · exact setStats_loaded hload₂ frame.small_below
  apply (vlogStat_refused hrefused).step
  apply (obs_sim _ _).step
  refine (load32_holds (v := 0x11111111) ?_).step ?_
  · exact setStats_holds frame.small_below
  apply (obs_sim _ _).step
  refine (@readBootinfo_sim _ _ _ bi scratch ?_).step ?_
  · exact setStats_loaded hload₂ frame.small_below
  apply (vlogStat_refused houtside).step
  apply (obs_sim _ _).leads
  constructor
  · simp [hout, hseq', hbytes']
  · simp [hlog, hseq, logRecords]

end Vlog.Guest
