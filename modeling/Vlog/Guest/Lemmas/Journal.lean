import Vlog.Guest.Journal
import Vlog.Guest.Lemmas.Library

/-!
# The guest library keeps the journal

Over a device that follows the contract, each call returns what the journal says and leaves a machine that shows
the journal's next state.
-/

namespace Vlog.Guest

open Vlog.Lib Vlog.Libc Vlog.Device
open Vlog.Emulator (Record)

variable {p : Priority} {d : SpecDevice p} {j j' : Journal} {s s₁ : Seen} {m : Machine d.toMmioDevice}
  {msg : UInt64} {len : UInt32}

/-! ## Strings -/

theorem lt_succ {i n : UInt32} (h : n + 1 ≠ 0) (hi : i < n + 1) : i < n ∨ i = n := by
  have hne : (n + 1).toNat ≠ 0 := fun e => h (UInt32.toNat_inj.mp e)
  have hlt := n.toNat_lt
  rw [UInt32.lt_iff_toNat_lt] at hi ⊢
  rw [UInt32.toNat_add, UInt32.toNat_one] at hne hi
  rw [← UInt32.toNat_inj]
  omega

theorem lt_of_succ_eq_zero {n : UInt32} (h : n + 1 = 0) (i : UInt32) : i < n ∨ i = n := by
  have hzero : (n + 1).toNat = 0 := congrArg UInt32.toNat h
  have hlt := i.toNat_lt
  rw [UInt32.lt_iff_toNat_lt, ← UInt32.toNat_inj]
  rw [UInt32.toNat_add, UInt32.toNat_one] at hzero
  omega

/-- Behind the lengths before `n`, which are in the RAM and none of which ends the string. -/
theorem stringLen_cases (mem : Memory) (a : UInt64) (n : UInt32)
    (hram : ∀ i < n, InRam (a + i.toUInt64) 1) (hn : ∀ i < n, mem (a + i.toUInt64).toNat ≠ 0) :
    (∃ k, stringLen mem a n = some k ∧ Journal.IsLen mem a k) ∨
      (stringLen mem a n = none ∧ ∀ k, ¬ Journal.IsLen mem a k) := by
  fun_induction stringLen mem a n with
  | case1 n hout =>
      refine .inr ⟨rfl, fun k hk => ?_⟩
      rcases UInt32.lt_or_le k n with hlt | hle
      · exact hn k hlt hk.ends
      · exact hout (hk.ram n hle)
  | case2 n hin hend =>
      refine .inl ⟨n, rfl, ?_, hend, hn⟩
      intro i hi
      rcases UInt32.lt_or_eq_of_le hi with hlt | rfl
      · exact hram i hlt
      · exact not_not.mp hin
  | case3 n hin hend hwrap =>
      refine .inr ⟨rfl, fun k hk => ?_⟩
      rcases lt_of_succ_eq_zero hwrap k with hlt | rfl
      · exact hn k hlt hk.ends
      · exact hend hk.ends
  | case4 n hin hend hwrap ih =>
      apply ih
      · intro i hi
        rcases lt_succ hwrap hi with hlt | rfl
        · exact hram i hlt
        · exact not_not.mp hin
      · intro i hi
        rcases lt_succ hwrap hi with hlt | rfl
        · exact hn i hlt
        · exact hend

/-! ## Requests that are in order -/

theorem logFaults_iff : logFaults msg len = [] ↔ Journal.Fits msg len := by
  constructor
  · intro h
    obtain ⟨hmax, hram⟩ := List.append_eq_nil_iff.mp h
    constructor
    · by_contra hlt
      simp [UInt32.not_le.mp hlt] at hmax
    · by_contra hout
      obtain ⟨hzero, hout⟩ := not_or.mp hout
      have hpos : 0 < len := UInt32.pos_iff_ne_zero.mpr hzero
      simp [hpos, hout] at hram
  · rintro ⟨hlen, hram⟩
    exact logFaults_eq_nil hlen hram

theorem statFaults_iff : statFaults msg len = [] ↔ statsSize ≤ len.toNat ∧ InRam msg statsSize := by
  constructor
  · intro h
    obtain ⟨hmin, hram⟩ := List.append_eq_nil_iff.mp h
    constructor
    · by_contra hlt
      simp [Nat.lt_of_not_le hlt] at hmin
    · by_contra hout
      simp [hout] at hram
  · rintro ⟨hlen, hram⟩
    exact statFaults_eq_nil hlen hram

/-! ## Commands whose code is the device's -/

/-- Behind its operands, a command ends with a code that the contract allows, which is returned. -/
theorem command_result {pre : GuestM d.toMmioDevice Unit} (cmd : UInt32) (hpre : Sim d pre s () s₁)
    (hm : m.seen = s) :
    ∃ code ∈ outcomes p cmd s₁.regs,
      ((do pre; mmioW32 regCmd cmd; return statusResult (← mmioR32 regStatus)).run m).1 = code.toUInt32 ∧
      ((do pre; mmioW32 regCmd cmd; return statusResult (← mmioR32 regStatus)).run m).2.seen =
        s₁.command cmd code := by
  obtain ⟨_, hoperands⟩ := hpre m hm
  obtain ⟨code, hcode, hrun⟩ := command_cases (pre.run m).2 cmd
  rw [hoperands] at hcode hrun
  obtain ⟨hval, hseen⟩ := statusResult_sim (s := s₁.command cmd code) rfl _ hrun
  exact ⟨code, hcode, hval, hseen⟩

theorem vlogWrite_refusal (level : UInt32) (hfits : ¬ Journal.Fits msg len) (hm : m.seen = s) :
    ∃ code ∈ p.codes (logFaults msg len), ((vlogWrite level msg len).run m).1 = code.toUInt32 ∧
      ((vlogWrite level msg len).run m).2.seen = (s.request level msg len).ended code := by
  have hoperands : Sim d (do mmioW32 regMsgLo msg.toUInt32; mmioW32 regMsgHi (msg >>> 32).toUInt32
                             mmioW32 regLen len; mmioW32 regLevel level)
      s () (s.request level msg len) :=
    (mmioW32_operand (by decide)).bind ((mmioW32_operand (by decide)).bind
      ((mmioW32_operand (by decide)).bind (mmioW32_operand (by decide))))
  have hfaults : faults cmdLog (s.request level msg len).regs ≠ [] := by
    rwa [faults_log, ne_eq, logFaults_iff]
  obtain ⟨code, hcode, hval, hseen⟩ := command_result cmdLog hoperands hm
  have hne := (outcomes_failed hfaults hcode).2
  rw [outcomes, if_neg hfaults, faults_log] at hcode
  rw [command_failed hne] at hseen
  exact ⟨code, hcode, hval, hseen⟩

theorem vlogStat_refusal (hroom : ¬ (statsSize ≤ len.toNat ∧ InRam msg statsSize)) (hm : m.seen = s) :
    ∃ code ∈ p.codes (statFaults msg len), ((vlogStat msg len).run m).1 = code.toUInt32 ∧
      ((vlogStat msg len).run m).2.seen = (s.request s.regs.level msg len).ended code := by
  have hlow : (msg &&& 0xffffffff).toUInt32 = msg.toUInt32 := by
    rw [UInt64.toUInt32_and]
    exact UInt32.and_neg_one
  have hoperands : Sim d (do mmioW32 regMsgLo (msg &&& 0xffffffff).toUInt32
                             mmioW32 regMsgHi (msg >>> 32).toUInt32; mmioW32 regLen len)
      s () (s.request s.regs.level msg len) := by
    rw [hlow]
    exact (mmioW32_operand (by decide)).bind ((mmioW32_operand (by decide)).bind (mmioW32_operand (by decide)))
  have hfaults : faults cmdStat (s.request s.regs.level msg len).regs ≠ [] := by
    rwa [faults_stat, ne_eq, statFaults_iff]
  obtain ⟨code, hcode, hval, hseen⟩ := command_result cmdStat hoperands hm
  have hne := (outcomes_failed hfaults hcode).2
  rw [outcomes, if_neg hfaults, faults_stat] at hcode
  rw [command_failed hne] at hseen
  exact ⟨code, hcode, hval, hseen⟩

/-! ## What a machine shows -/

structure Journal.Shows (j : Journal) (s : Seen) : Prop where
  seq : s.regs.seq = UInt32.ofNat j.lines.length
  bytes : s.regs.bytes = UInt32.ofNat j.size
  status : s.regs.status = statusWord j.last
  log : s.log = j.records.flatMap Record.text
  mem : s.mem = j.mem
  out : s.out = j.out

theorem shows_start (d : SpecDevice p) (mem : Memory) :
    (Journal.start mem).Shows
      (Machine.seen ({ dev := d.init, mem := mem, out := [] } : Machine d.toMmioDevice)) where
  seq := congrArg VlogDevice.seq d.view_init
  bytes := congrArg VlogDevice.bytes d.view_init
  status := congrArg (fun r => VlogDevice.status r &&& statusFields) d.view_init
  log := d.log_init
  mem := rfl
  out := rfl

theorem records_add (j : Journal) (level : UInt32) (bytes : List Byte) :
    (j.add level bytes).records =
      j.records ++ [{ seq := UInt32.ofNat j.lines.length, level := level, bytes := bytes }] := by
  rw [Journal.records, Journal.add, List.mapIdx_concat]
  rfl

theorem size_add (j : Journal) (level : UInt32) (bytes : List Byte) :
    (j.add level bytes).size = j.size + bytes.length := by
  simp [Journal.size, Journal.add]

theorem shows_ended {level : UInt32} {code : UInt8} (h : j.Shows s) :
    Journal.Shows { j with last := code } ((s.request level msg len).ended code) where
  seq := h.seq
  bytes := h.bytes
  status := rfl
  log := h.log
  mem := h.mem
  out := h.out

theorem shows_logged {level : UInt32} (h : j.Shows s) :
    (j.add level (j.mem.slice msg.toNat len.toNat)).Shows (s.logged level msg len) where
  seq := by
    rw [logged_seq, h.seq]
    simp [Journal.add]
  bytes := by
    rw [logged_bytes, h.bytes, size_add, Memory.slice_length]
    simp
  status := rfl
  log := by
    rw [logged_log, h.log, records_add, h.mem, h.seq]
    simp
  mem := h.mem
  out := h.out

theorem shows_filled (h : j.Shows s) :
    Journal.Shows
      { j with
        last := errNone
        mem := j.mem.store msg.toNat
          (Memory.leBytes 4 (j.lines.length % 2 ^ 32) ++ Memory.leBytes 4 (j.size % 2 ^ 32)) }
      (s.filled msg len) where
  seq := h.seq
  bytes := h.bytes
  status := rfl
  log := h.log
  mem := by
    rw [filled_mem, Seen.stats, h.seq, h.bytes, h.mem]
    simp
  out := h.out

theorem shows_print (text : List Byte) (h : j.Shows s) :
    Journal.Shows { j with out := j.out ++ text } (s.print text) where
  seq := h.seq
  bytes := h.bytes
  status := h.status
  log := h.log
  mem := h.mem
  out := by rw [print_out, h.out]

/-! ## Calls -/

theorem vlogWrite_step (level : UInt32) (msg : UInt64) (len : UInt32) (h : j.Shows m.seen) :
    ∃ j', Journal.Step p j (.write level msg len) ((vlogWrite level msg len).run m).1 j' ∧
      j'.Shows ((vlogWrite level msg len).run m).2.seen := by
  by_cases hfits : Journal.Fits msg len
  · have hsim : Sim d (vlogWrite level msg len) m.seen 0 (m.seen.logged level msg len) :=
      vlogWrite_logged (logFaults_iff.mpr hfits)
    obtain ⟨hval, hseen⟩ := hsim m rfl
    rw [hval, hseen]
    exact ⟨_, .written hfits, shows_logged h⟩
  · obtain ⟨code, hcode, hval, hseen⟩ := vlogWrite_refusal (m := m) level hfits rfl
    rw [hval, hseen]
    exact ⟨_, .refused hfits hcode, shows_ended h⟩

theorem vlogStat_step (h : j.Shows m.seen) :
    ∃ j', Journal.Step p j (.stat msg len) ((vlogStat msg len).run m).1 j' ∧
      j'.Shows ((vlogStat msg len).run m).2.seen := by
  by_cases hroom : statsSize ≤ len.toNat ∧ InRam msg statsSize
  · obtain ⟨hval, hseen⟩ := vlogStat_filled (statFaults_iff.mpr hroom) m rfl
    rw [hval, hseen]
    exact ⟨_, .counted hroom.1 hroom.2, shows_filled h⟩
  · obtain ⟨code, hcode, hval, hseen⟩ := vlogStat_refusal (m := m) hroom rfl
    rw [hval, hseen]
    exact ⟨_, .uncounted hroom hcode, shows_ended h⟩

theorem command_step {cmd : UInt32} (other : cmd ≠ cmdLog ∧ cmd ≠ cmdStat) (h : j.Shows m.seen) :
    ∃ j', Journal.Step p j (.command cmd other) 0 j' ∧ j'.Shows ((mmioW32 regCmd cmd).run m).2.seen := by
  by_cases hquiet : cmd = cmdNop ∨ cmd = cmdFlush
  · have hfaults : faults cmd m.seen.regs = [] := if_pos hquiet
    rw [reports_of_outcomes (outcomes_success hfaults) m rfl, command_quiet hquiet]
    exact ⟨_, .quiet hquiet, ⟨h.seq, h.bytes, rfl, h.log, h.mem, h.out⟩⟩
  · have hfaults : faults cmd m.seen.regs = [errBadCmd] := by
      rw [faults, if_neg hquiet, if_neg other.1, if_neg other.2]
    rw [reports_of_outcomes (outcomes_single hfaults) m rfl, command_failed (by decide)]
    exact ⟨_, .unknown hquiet, ⟨h.seq, h.bytes, rfl, h.log, h.mem, h.out⟩⟩

theorem vlogStatus_fields (m : Machine d.toMmioDevice) :
    (vlogStatus.run m).1 &&& statusFields = m.seen.regs.status := by
  have hread : (vlogStatus.run m).1 = (d.view m.dev).status := (mmioR32_run m regStatus).1
  rw [hread]
  rfl

theorem vlog_cases (m : Machine d.toMmioDevice) (level : UInt32) (a : UInt64) :
    (∃ len, Journal.IsLen m.mem a len ∧
      (vlog level a).run m = (some ((vlogWrite level a len).run m).1, ((vlogWrite level a len).run m).2)) ∨
    ((∀ len, ¬ Journal.IsLen m.mem a len) ∧ (vlog level a).run m = (none, m)) := by
  have hcases := stringLen_cases m.mem a 0 (fun i hi => absurd hi UInt32.not_lt_zero)
    (fun i hi => absurd hi UInt32.not_lt_zero)
  rcases hcases with ⟨len, hlen, his⟩ | ⟨hlen, hend⟩
  · refine .inl ⟨len, his, ?_⟩
    simp only [vlog, StateT.run_bind, StateT.run_get, pure_bind, hlen]
    rfl
  · refine .inr ⟨hend, ?_⟩
    simp only [vlog, StateT.run_bind, StateT.run_get, pure_bind, hlen]
    rfl

theorem call_step (c : Call) (h : j.Shows m.seen) :
    (∃ r j', (c.run.run m).1 = some r ∧ Journal.Step p j c r j' ∧ j'.Shows (c.run.run m).2.seen) ∨
      ((c.run.run m).1 = none ∧ j.Strays c ∧ j.Shows (c.run.run m).2.seen) := by
  cases c with
  | id =>
      have hsim : Sim d vlogId m.seen vlogMagic m.seen := mmioR32_register (by decide)
      obtain ⟨hval, hseen⟩ := hsim m rfl
      exact .inl ⟨_, j, congrArg some hval, .id, hseen.symm ▸ h⟩
  | status =>
      have hst := (vlogStatus_fields m).trans h.status
      exact .inl ⟨_, j, rfl, .status hst, (mmioR32_seen m regStatus).symm ▸ h⟩
  | seq =>
      have hsim : Sim d vlogSeq m.seen m.seen.regs.seq m.seen := mmioR32_register (by decide)
      obtain ⟨hval, hseen⟩ := hsim m rfl
      rw [h.seq] at hval
      exact .inl ⟨_, j, congrArg some hval, .seq, hseen.symm ▸ h⟩
  | write level msg len =>
      obtain ⟨j', hst, hshows⟩ := vlogWrite_step level msg len h
      exact .inl ⟨_, j', rfl, hst, hshows⟩
  | vlog level a =>
      have hmem : m.mem = j.mem := h.mem
      rcases vlog_cases (d := d) m level a with ⟨len, his, hrun⟩ | ⟨hend, hrun⟩
      · obtain ⟨j', hst, hshows⟩ := vlogWrite_step level a len h
        exact .inl ⟨_, j', congrArg Prod.fst hrun, .string (hmem ▸ his) hst, congrArg Prod.snd hrun ▸ hshows⟩
      · exact .inr ⟨congrArg Prod.fst hrun, .vlog (hmem ▸ hend), congrArg Prod.snd hrun ▸ h⟩
  | stat a len =>
      obtain ⟨j', hst, hshows⟩ := vlogStat_step h
      exact .inl ⟨_, j', rfl, hst, hshows⟩
  | command cmd other =>
      obtain ⟨j', hst, hshows⟩ := command_step other h
      exact .inl ⟨_, j', rfl, hst, hshows⟩
  | load a =>
      by_cases hram : InRam a 4
      · have hrun : (Call.load a).run.run m = (some (UInt32.ofNat (j.mem.load a.toNat 4)), m) := by
          rw [← h.mem, Call.run, if_pos hram]
          rfl
        rw [hrun]
        exact .inl ⟨_, j, rfl, .load hram, h⟩
      · have hrun : (Call.load a).run.run m = (none, m) := by
          rw [Call.run, if_neg hram]
          rfl
        rw [hrun]
        exact .inr ⟨rfl, .load hram, h⟩
  | store a val =>
      by_cases hram : InRam a 4
      · have hrun : (Call.store a val).run.run m = (some 0, ((store32 a val).run m).2) := by
          rw [Call.run, if_pos hram]
          rfl
        rw [hrun]
        refine .inl ⟨_, _, rfl, .store hram, ⟨h.seq, h.bytes, h.status, h.log, ?_, h.out⟩⟩
        rw [← h.mem]
        rfl
      · have hrun : (Call.store a val).run.run m = (none, m) := by
          rw [Call.run, if_neg hram]
          rfl
        rw [hrun]
        exact .inr ⟨rfl, .store hram, h⟩
  | puts text =>
      have hsim : Sim d (puts text) m.seen () (m.seen.print text) := puts_sim text
      exact .inl ⟨_, _, rfl, .puts, (hsim m rfl).2.symm ▸ shows_print text h⟩
  | puthex v =>
      have hsim : Sim d (puthex v) m.seen () (m.seen.print (lit "0x" ++ fmtX8 v)) := puthex_sim v
      exact .inl ⟨_, _, rfl, .puthex, (hsim m rfl).2.symm ▸ shows_print _ h⟩

/-! ## Programs -/

theorem runCalls_returns {c : Call} {cs : List Call} {r : UInt32} (h : (c.run.run m).1 = some r) :
    (runCalls (c :: cs)).run m =
      (r :: ((runCalls cs).run (c.run.run m).2).1, ((runCalls cs).run (c.run.run m).2).2) := by
  simp only [runCalls, StateT.run_bind]
  generalize c.run.run m = x at h ⊢
  obtain ⟨_, m'⟩ := x
  cases h
  rfl

theorem runCalls_hangs {c : Call} {cs : List Call} (h : (c.run.run m).1 = none) :
    (runCalls (c :: cs)).run m = ([], (c.run.run m).2) := by
  simp only [runCalls, StateT.run_bind]
  generalize c.run.run m = x at h ⊢
  obtain ⟨_, m'⟩ := x
  cases h
  rfl

theorem runCalls_steps (cs : List Call) (h : j.Shows m.seen) :
    ∃ j', Run (Journal.Steps p) j (cs.zip ((runCalls cs).run m).1) j' ∧
      j'.Shows ((runCalls cs).run m).2.seen ∧
      (((runCalls cs).run m).1.length = cs.length ∨
        ∃ c, cs[((runCalls cs).run m).1.length]? = some c ∧ j'.Strays c) := by
  induction cs generalizing j m with
  | nil => exact ⟨j, .refl, h, .inl rfl⟩
  | cons c cs ih =>
      rcases call_step c h with ⟨r, j₁, hval, hst, hshows⟩ | ⟨hval, hend, hshows⟩
      · obtain ⟨j', hsteps, hshows', hrest⟩ := ih hshows
        rw [runCalls_returns hval]
        have hfirst : Run (Journal.Steps p) j [(c, r)] j₁ := .single ⟨c, r, rfl, hst⟩
        refine ⟨j', hfirst.append hsteps, hshows', ?_⟩
        rcases hrest with hall | ⟨c', hc', hend⟩
        · exact .inl (congrArg (· + 1) hall)
        · exact .inr ⟨c', hc', hend⟩
      · rw [runCalls_hangs hval]
        exact ⟨j, by simpa using Run.refl, hshows, .inr ⟨c, rfl, hend⟩⟩

/-! ## How the journal grows -/

theorem refused_ne_zero {code : UInt8} (h : code ∈ p.codes (logFaults msg len)) : code.toUInt32 ≠ 0 := by
  have hmem := Priority.mem_of_mem_codes h
  rcases List.mem_append.mp hmem with hmem | hmem
  · split_ifs at hmem
    · cases List.mem_singleton.mp hmem
      decide
    · cases hmem
  · split_ifs at hmem
    · cases List.mem_singleton.mp hmem
      decide
    · cases hmem

theorem Journal.Step.lines_length {c : Call} {r : UInt32} (h : Journal.Step p j c r j') :
    j'.lines.length = j.lines.length + if Call.logged (c, r) then 1 else 0 := by
  induction h with
  | written => simp [Journal.add, Call.logged]
  | refused _ hcode => simp [Call.logged, refused_ne_zero hcode]
  | string _ _ ih => exact ih
  | _ => rfl

theorem run_lines_length {es : List (Call × UInt32)} (hr : Run (Journal.Steps p) j es j') :
    j'.lines.length = j.lines.length + es.countP Call.logged := by
  induction hr with
  | refl => rfl
  | snoc _ hst ih =>
      obtain ⟨c, r, rfl, hst⟩ := hst
      rw [hst.lines_length, ih, List.countP_append, List.countP_singleton, Nat.add_assoc]

end Vlog.Guest
