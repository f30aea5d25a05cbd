import Vlog.Device.Reference
import Vlog.Guest.Lemmas.Scenarios

/-!
# The oracle's files against a device that follows the contract

The ranges of the generator, and for each kind of output whether its check passes.
-/

namespace Vlog.Guest

open Vlog.Lib Vlog.Libc Vlog.Device

variable {p : Priority} {d : SpecDevice p} {frame : Frame} {ram : Memory} {α β : Type}

/-! ## Draws -/

/-- What is drawn has `P`, in whatever state the generator is. -/
def Draws (draw : Draw α) (P : α → Prop) : Prop := ∀ s, P (draw.run s).1

theorem Draws.pure {P : α → Prop} {a : α} (h : P a) : Draws (Pure.pure a) P := fun _ => h

theorem Draws.bind {draw : Draw α} {next : α → Draw β} {P : α → Prop} {Q : β → Prop}
    (h : Draws draw P) (h' : ∀ a, P a → Draws (next a) Q) : Draws (draw >>= next) Q :=
  fun s => h' _ (h s) _

theorem draws_any (draw : Draw α) : Draws draw fun _ => True := fun _ => trivial

theorem rngRange_draws {lo hi : UInt32} (h : lo ≤ hi) (hfull : hi.toNat - lo.toNat + 1 < 2 ^ 32) :
    Draws (rngRange lo hi) fun v => lo.toNat ≤ v.toNat ∧ v.toNat ≤ hi.toNat := by
  intro s
  have hv : ((rngRange lo hi).run s).1 = lo + rngWord (rngNext s) % (hi - lo + 1) := rfl
  have hle := UInt32.le_iff_toNat_le.mp h
  have hsize : (hi - lo + 1).toNat = hi.toNat - lo.toNat + 1 := by
    rw [UInt32.toNat_add, UInt32.toNat_sub_of_le _ _ h]
    exact Nat.mod_eq_of_lt hfull
  have hmod : (rngWord (rngNext s)).toNat % (hi.toNat - lo.toNat + 1) < hi.toNat - lo.toNat + 1 :=
    Nat.mod_lt _ (by omega)
  have hhi := hi.toNat_lt
  rw [hv, UInt32.toNat_add, UInt32.toNat_mod, hsize, Nat.mod_eq_of_lt (by omega)]
  omega

theorem fill_draws (draw : Draw Byte) (len : Nat) : Draws (fill draw len) fun bs => bs.length = len := by
  induction len with
  | zero => exact Draws.pure rfl
  | succ len ih =>
      refine (draws_any draw).bind fun b _ => ih.bind fun bs hbs => Draws.pure ?_
      rw [List.length_cons, hbs]

/-! ## The whole check -/

def Seen.start (mem : Memory) : Seen := { regs := vlogDeviceInit, log := [], mem := mem, out := [] }

theorem boot_seen (blob : List Byte) :
    (boot d.toMmioDevice ram blob).seen = Seen.start (ram.store bootinfoBase.toNat blob) := by
  simp only [Machine.seen, Machine.world, World.fields, boot, d.view_init, d.log_init]
  rfl

theorem agGuest_leads {mem : Memory} {bi : Bootinfo} {scratch : List Byte}
    {body : GuestM d.toMmioDevice Unit} {Q : Seen → Prop} (hload : Loaded mem bi scratch)
    (hmagic : bi.magic = bootinfoMagic)
    (hcase : (switchCases frame bootinfoBase bi).lookup bi.scenario = some body)
    (hbody : Leads d body (Seen.start mem) fun _ => Q) :
    Leads d (agGuest frame bootinfoBase) (Seen.start mem) fun rc s' => rc = 0 ∧ Q s' := by
  unfold agGuest
  apply (readBootinfo_sim hload).step
  simp only [hmagic, hcase, ne_eq, not_true_eq_false, ↓reduceIte]
  exact hbody.bind fun _ _ hQ => (Sim.pure 0).leads ⟨rfl, hQ⟩

/-- What the three comparisons see. -/
def Output.Shown (o : Output) (s : Seen) : Prop := s.out = o.obs ∧ ∀ log ∈ o.log, s.log = log

theorem Output.shown_iff {o : Output} {s : Seen} {text : List Byte} (h : o.log = some text) :
    o.Shown s ↔ s.out = o.obs ∧ s.log = text := by
  simp [Output.Shown, h]

theorem passes_iff_of_leads {o : Output} {bi : Bootinfo} {scratch : List Byte}
    {body : GuestM d.toMmioDevice Unit} {b : Prop} (hblob : o.blob = writeBlob bi scratch)
    (hmagic : bi.magic = bootinfoMagic)
    (hcase : (switchCases frame bootinfoBase bi).lookup bi.scenario = some body)
    (hbody : ∀ mem, Loaded mem bi scratch →
      Leads d body (Seen.start mem) fun _ s' => o.Shown s' ↔ b) :
    Passes d.toMmioDevice frame ram o ↔ b := by
  have hload : Loaded (ram.store bootinfoBase.toNat o.blob) bi scratch := by
    apply loaded_writeBlob
    rw [← hblob]
    exact Memory.holds_store
  have hrun := (agGuest_leads hload hmagic hcase (hbody _ hload)).run _ (boot_seen o.blob)
  rw [← hrun.2, Passes]
  exact ⟨fun h => h.2, fun h => ⟨hrun.1, h⟩⟩

theorem passes_of_leads {o : Output} {bi : Bootinfo} {scratch : List Byte}
    {body : GuestM d.toMmioDevice Unit} (hblob : o.blob = writeBlob bi scratch)
    (hmagic : bi.magic = bootinfoMagic)
    (hcase : (switchCases frame bootinfoBase bi).lookup bi.scenario = some body)
    (hbody : ∀ mem, Loaded mem bi scratch → Leads d body (Seen.start mem) fun _ => o.Shown) :
    Passes d.toMmioDevice frame ram o := by
  rw [passes_iff_of_leads hblob hmagic hcase fun mem hload =>
    (hbody mem hload).mono fun _ _ h => iff_true_intro h]
  trivial

/-! ## The message in the blob -/

theorem scratchAddr_toNat : Bootinfo.start.scratchAddr.toNat = bootinfoBase.toNat + bootinfoHdrBytes := rfl

theorem Loaded.message {mem : Memory} {bi : Bootinfo} {scratch : List Byte} {len : UInt32}
    (h : Loaded mem bi scratch) (hlen : scratch.length = len.toNat) :
    mem.slice Bootinfo.start.scratchAddr.toNat len.toNat = scratch := by
  rw [scratchAddr_toNat, ← hlen]
  exact h.slice

theorem scratch_inRam {len : UInt32} : InRam Bootinfo.start.scratchAddr len.toNat ↔ len.toNat ≤ 65472 := by
  have hbase : bootinfoBase.toNat = 0x010F0000 := rfl
  unfold InRam
  rw [scratchAddr_toNat, hbase]
  unfold bootinfoHdrBytes ramBase ramSize
  omega

theorem scratch_fits {len : UInt32} (h : len.toNat ≤ 4096) :
    logFaults Bootinfo.start.scratchAddr len = [] :=
  logFaults_eq_nil (UInt32.le_iff_toNat_le.mpr h) (.inr (scratch_inRam.mpr (by omega)))

/-- The bad addresses lie below RAM. -/
theorem below_ram {addr : UInt32} (len : Nat) (h : addr.toNat < ramBase) :
    ¬ InRam addr.toUInt64 len := by
  have haddr : addr.toUInt64.toNat = addr.toNat := UInt32.toNat_toUInt64 addr
  rintro ⟨hlow, -⟩
  omega

theorem badAddr_fault {addr : UInt32} (h : addr.toNat < ramBase) :
    logFaults addr.toUInt64 4 = [errBadAddr] :=
  logFaults_badAddr (by decide) (by decide) (below_ram _ h)

/-! ## The files of each scenario -/

variable {len level count small badaddr badcmd badlen : UInt32} {scratch : List Byte}

/-- A log that depends on the message in memory is the oracle's log of the message in the blob. -/
theorem Output.shown_of_message {o : Output} {s : Seen} {mem : Memory} {bi : Bootinfo}
    {text : List Byte → List Byte} (hload : Loaded mem bi scratch)
    (hscratch : scratch.length = len.toNat) (hout : s.out = o.obs) (ho : o.log = some (text scratch))
    (hlog : s.log = text (mem.slice Bootinfo.start.scratchAddr.toNat len.toNat)) : o.Shown s := by
  rw [hload.message hscratch] at hlog
  exact (Output.shown_iff ho).mpr ⟨hout, hlog⟩

theorem logOneFiles_passes (hlen : len.toNat ≤ 4096) (hscratch : scratch.length = len.toNat) :
    Passes d.toMmioDevice frame ram (logOneFiles len level scratch) := by
  apply passes_of_leads rfl rfl rfl
  intro mem hload
  refine Leads.mono (logOne_leads (scratch_fits hlen)) ?_
  rintro _ s ⟨hout, hlog⟩
  exact Output.shown_of_message hload hscratch hout rfl hlog

theorem logManyFiles_passes (hlen : len.toNat ≤ 4096) (hscratch : scratch.length = len.toNat) :
    Passes d.toMmioDevice frame ram (logManyFiles count len level scratch) := by
  apply passes_of_leads rfl rfl rfl
  intro mem hload
  refine Leads.mono (logMany_leads (scratch_fits hlen)) ?_
  rintro _ s ⟨hout, hlog⟩
  have hout' : s.out = obsLine "err" 0 ++ obsLine "seq" (0 + count) := hout
  have hlog' : s.log = (List.range count.toNat).flatMap fun i => logRecord (0 + UInt32.ofNat i) level
      (mem.slice Bootinfo.start.scratchAddr.toNat len.toNat) := hlog
  simp only [UInt32.zero_add] at hout' hlog'
  exact Output.shown_of_message hload hscratch hout' rfl hlog'

theorem emptyFiles_passes : Passes d.toMmioDevice frame ram (emptyFiles level) := by
  apply passes_of_leads rfl rfl rfl
  intro mem hload
  refine Leads.mono empty_leads ?_
  rintro _ s ⟨hout, hlog⟩
  exact (Output.shown_iff rfl).mpr ⟨hout, hlog⟩

theorem maxlenFiles_passes (hscratch : scratch.length = vlogMaxMsg.toNat) :
    Passes d.toMmioDevice frame ram (maxlenFiles level scratch) := by
  have hover : logFaults Bootinfo.start.scratchAddr (vlogMaxMsg + 1) = [errBadLen] :=
    logFaults_badLen (by decide) (scratch_inRam.mpr (by decide))
  apply passes_of_leads rfl rfl rfl
  intro mem hload
  refine Leads.mono (maxlen_leads (scratch_fits (by decide)) hover) ?_
  rintro _ s ⟨hout, hlog⟩
  exact Output.shown_of_message hload hscratch hout rfl hlog

theorem boundaryFiles_passes (hpos : 0 < len.toNat) (hlen : len.toNat ≤ 16) :
    Passes d.toMmioDevice frame ram (boundaryFiles level len) := by
  have htop : ramTop.toNat = 0x1100000 := rfl
  have hwide : len.toUInt64.toNat = len.toNat := UInt32.toNat_toUInt64 len
  have hstart : (ramTop - len.toUInt64).toNat = 0x1100000 - len.toNat := by
    rw [UInt64.toNat_sub_of_le _ _ (UInt64.le_iff_toNat_le.mpr (by omega)), htop, hwide]
  have hone : (1 : UInt64).toNat = 1 := rfl
  have hpast : (ramTop - len.toUInt64 + 1).toNat = 0x1100000 - len.toNat + 1 := by
    rw [UInt64.toNat_add, hstart, hone, Nat.mod_eq_of_lt (by omega)]
  have hmax : len ≤ vlogMaxMsg := UInt32.le_iff_toNat_le.mpr (Nat.le_trans hlen (by decide))
  have hfit : logFaults (ramTop - len.toUInt64) len = [] := by
    refine logFaults_eq_nil hmax (.inr ?_)
    unfold InRam ramBase ramSize
    omega
  have hover : logFaults (ramTop - len.toUInt64 + 1) len = [errBadAddr] := by
    refine logFaults_badAddr hmax (UInt32.lt_iff_toNat_lt.mpr hpos) ?_
    unfold InRam ramBase ramSize
    omega
  apply passes_of_leads rfl rfl rfl
  intro mem hload
  refine Leads.mono (boundary_leads hfit hover) ?_
  intro _ s hout
  exact ⟨hout, by simp [boundaryFiles]⟩

theorem regsFiles_passes {lo hi : UInt32} :
    Passes d.toMmioDevice frame ram (regsFiles lo hi len level) := by
  apply passes_of_leads rfl rfl rfl
  intro mem hload
  refine Leads.mono regs_leads ?_
  intro _ s hout
  exact ⟨hout, by simp [regsFiles]⟩

theorem interleaveFiles_passes (hlen : len.toNat ≤ 4096) (hscratch : scratch.length = len.toNat)
    (hbad : badaddr.toNat < ramBase) :
    Passes d.toMmioDevice frame ram (interleaveFiles len level badaddr scratch) := by
  apply passes_of_leads rfl rfl rfl
  intro mem hload
  refine Leads.mono (interleave_leads (scratch_fits hlen) (badAddr_fault hbad)) ?_
  rintro _ s ⟨hout, hlog⟩
  have hlog' : s.log =
      logRecord 0 level (mem.slice Bootinfo.start.scratchAddr.toNat len.toNat) ++
      logRecord 1 level (mem.slice Bootinfo.start.scratchAddr.toNat len.toNat) := hlog
  rw [hload.message hscratch] at hlog'
  exact (Output.shown_iff rfl).mpr ⟨hout, hlog'⟩

theorem flushFiles_passes (hlen : len.toNat ≤ 4096) (hscratch : scratch.length = len.toNat) :
    Passes d.toMmioDevice frame ram (flushFiles len level scratch) := by
  apply passes_of_leads rfl rfl rfl
  intro mem hload
  refine Leads.mono (flush_leads (scratch_fits hlen)) ?_
  rintro _ s ⟨hout, hlog⟩
  exact Output.shown_of_message hload hscratch hout rfl hlog

theorem statFiles_passes (hlen : len.toNat ≤ 4096) (hscratch : scratch.length = len.toNat)
    (hsmall : small.toNat < statsSize) (hbad : badaddr.toNat < ramBase) :
    Passes d.toMmioDevice frame ram (statFiles level len count small badaddr scratch) := by
  apply passes_of_leads rfl rfl rfl
  intro mem hload
  refine Leads.mono (stat_leads hload (scratch_fits hlen) hsmall (below_ram _ hbad) rfl rfl) ?_
  rintro _ s ⟨hout, hlog⟩
  exact Output.shown_of_message hload hscratch hout rfl hlog

/-- The unknown command may be STAT, and its length is 0. -/
theorem faults_init (h : 3 ≤ badcmd.toNat) : faults badcmd vlogDeviceInit =
    if badcmd = cmdStat then [errBadLen, errBadAddr] else [errBadCmd] := by
  have hne : ∀ cmd : UInt32, cmd.toNat < 3 → badcmd ≠ cmd := by
    rintro cmd hcmd rfl
    omega
  have hquiet : ¬ (badcmd = cmdNop ∨ badcmd = cmdFlush) :=
    not_or_intro (hne _ (by decide)) (hne _ (by decide))
  rw [faults, if_neg hquiet, if_neg (hne cmdLog (by decide))]
  rfl

theorem faults_init_ne_nil (h : 3 ≤ badcmd.toNat) : faults badcmd vlogDeviceInit ≠ [] := by
  rw [faults_init h]
  split <;> simp

theorem recoverFiles_passes (hlen : len.toNat ≤ 4096) (hscratch : scratch.length = len.toNat)
    (hcmd : 3 ≤ badcmd.toNat) :
    Passes d.toMmioDevice frame ram (recoverFiles len level badcmd scratch) := by
  apply passes_of_leads rfl rfl rfl
  intro mem hload
  refine Leads.mono (recover_leads (faults_init_ne_nil hcmd) (scratch_fits hlen)) ?_
  rintro _ s ⟨hout, hlog⟩
  exact Output.shown_of_message hload hscratch hout rfl hlog

/-- STAT is refused with another code than the oracle expects. -/
theorem nopFiles_passes_iff (hcmd : 3 ≤ badcmd.toNat) :
    Passes d.toMmioDevice frame ram (nopFiles badcmd) ↔ badcmd ≠ cmdStat := by
  have hshown : ∀ s, (nopFiles badcmd).Shown s ↔ s.out = obsLine "err_after_badcmd" 1 ++
      obsLine "errcode_after_badcmd" errBadCmd.toUInt32 ++ obsLine "err_after_nop" 0 ++
      obsLine "seq" 0 := by
    intro s
    simp [Output.Shown, nopFiles]
  apply passes_iff_of_leads rfl rfl rfl
  intro mem hload
  refine Leads.mono (nop_leads (faults_init_ne_nil hcmd)) ?_
  rintro _ s ⟨code, hcode, hout⟩
  have hmem := (outcomes_failed (faults_init_ne_nil hcmd) hcode).1
  have hout' : s.out = obsLine "err_after_badcmd" 1 ++ obsLine "errcode_after_badcmd" code.toUInt32 ++
      obsLine "err_after_nop" 0 ++ obsLine "seq" 0 := hout
  rw [hshown, hout']
  change code ∈ faults badcmd vlogDeviceInit at hmem
  rw [faults_init hcmd] at hmem
  by_cases hstat : badcmd = cmdStat
  · rw [if_pos hstat] at hmem
    refine iff_of_false ?_ (not_not_intro hstat)
    rcases List.mem_pair.mp hmem with rfl | rfl
    · decide +kernel
    · decide +kernel
  · rw [if_neg hstat, List.mem_singleton] at hmem
    rw [hmem]
    exact iff_of_true rfl hstat

theorem malformedFiles_passes_iff {code : UInt8} (hcode : code = errBadLen ∨ code = errBadAddr)
    (hlen : ∀ s : Seen,
      Reports d cmdLog (s.request level Bootinfo.start.scratchAddr badlen).regs code)
    (hbad : badaddr.toNat < ramBase) :
    Passes d.toMmioDevice frame ram (malformedFiles level badlen badaddr scratch) ↔ code = errBadLen := by
  have hne : code ≠ errNone := by rcases hcode with rfl | rfl <;> decide
  apply passes_iff_of_leads rfl rfl rfl
  intro mem hload
  refine Leads.mono (malformed_leads hne hlen (badAddr_fault hbad)) ?_
  rintro _ s ⟨hout, hlog⟩
  have hout' : s.out = obsLine "err_badcmd" 1 ++ obsLine "errcode_badcmd" errBadCmd.toUInt32 ++
      obsLine "rc_badlen" code.toUInt32 ++ obsLine "rc_badaddr" errBadAddr.toUInt32 ++
      obsLine "seq" 0 := hout
  have hlog' : s.log = [] := hlog
  have hobs : (malformedFiles level badlen badaddr scratch).obs = obsLine "err_badcmd" 1 ++
      obsLine "errcode_badcmd" errBadCmd.toUInt32 ++ obsLine "rc_badlen" errBadLen.toUInt32 ++
      obsLine "rc_badaddr" errBadAddr.toUInt32 ++ obsLine "seq" 0 := rfl
  rw [Output.shown_iff rfl, hout', hlog', hobs]
  rcases hcode with rfl | rfl
  · exact iff_of_true ⟨rfl, rfl⟩ rfl
  · refine iff_of_false ?_ (by decide)
    rintro ⟨hsame, -⟩
    revert hsame
    decide +kernel

/-! ## Each scenario -/

theorem fillPrintable_draws (len : UInt32) : Draws (fillPrintable len) fun bs => bs.length = len.toNat :=
  fill_draws _ _

theorem badAddr_draws : Draws badAddr fun addr => addr.toNat < ramBase := by
  intro s
  have hrange := @rngRange_draws 0x1000 (UInt32.ofNat ramBase - 16) (by decide) (by decide) s
  exact Nat.lt_of_le_of_lt hrange.2 (by decide)

/-- Two scenarios aside, the check passes whatever is drawn. -/
theorem files_pass {scen : Scenario} (hnop : scen ≠ .nop) (hmal : scen ≠ .malformed) :
    Draws scen.files fun o => Passes d.toMmioDevice frame ram o := by
  cases scen with
  | logOne =>
      refine (rngRange_draws (by decide) (by decide)).bind fun len hlen => ?_
      refine (draws_any _).bind fun level _ => ?_
      refine (fillPrintable_draws len).bind fun scratch hscratch => Draws.pure ?_
      exact logOneFiles_passes (Nat.le_trans hlen.2 (by decide)) hscratch
  | logMany =>
      refine (draws_any _).bind fun count _ => ?_
      refine (rngRange_draws (by decide) (by decide)).bind fun len hlen => ?_
      refine (draws_any _).bind fun level _ => ?_
      refine (fillPrintable_draws len).bind fun scratch hscratch => Draws.pure ?_
      exact logManyFiles_passes (Nat.le_trans hlen.2 (by decide)) hscratch
  | malformed => exact absurd rfl hmal
  | boundary =>
      refine (draws_any _).bind fun level _ => ?_
      refine (rngRange_draws (by decide) (by decide)).bind fun len hlen => Draws.pure ?_
      exact boundaryFiles_passes hlen.1 hlen.2
  | empty => exact (draws_any _).bind fun level _ => Draws.pure emptyFiles_passes
  | maxlen =>
      refine (draws_any _).bind fun level _ => ?_
      refine (fillPrintable_draws _).bind fun scratch hscratch => Draws.pure ?_
      exact maxlenFiles_passes hscratch
  | levelOob =>
      refine (rngRange_draws (by decide) (by decide)).bind fun len hlen => ?_
      refine (draws_any _).bind fun level _ => ?_
      refine (fillPrintable_draws len).bind fun scratch hscratch => Draws.pure ?_
      exact logOneFiles_passes (Nat.le_trans hlen.2 (by decide)) hscratch
  | binsafe =>
      refine (rngRange_draws (by decide) (by decide)).bind fun len hlen => ?_
      refine (draws_any _).bind fun level _ => ?_
      refine (fill_draws _ len.toNat).bind fun scratch hscratch => Draws.pure ?_
      refine logOneFiles_passes (Nat.le_trans hlen.2 (by decide)) ?_
      rw [List.length_set, List.length_set, hscratch]
  | regs =>
      refine (draws_any _).bind fun lo _ => ?_
      refine (draws_any _).bind fun hi _ => ?_
      refine (draws_any _).bind fun len _ => ?_
      exact (draws_any _).bind fun level _ => Draws.pure regsFiles_passes
  | nop => exact absurd rfl hnop
  | recover =>
      refine (rngRange_draws (by decide) (by decide)).bind fun len hlen => ?_
      refine (draws_any _).bind fun level _ => ?_
      refine (rngRange_draws (by decide) (by decide)).bind fun badcmd hcmd => ?_
      refine (fillPrintable_draws len).bind fun scratch hscratch => Draws.pure ?_
      exact recoverFiles_passes (Nat.le_trans hlen.2 (by decide)) hscratch hcmd.1
  | interleave =>
      refine (rngRange_draws (by decide) (by decide)).bind fun len hlen => ?_
      refine (draws_any _).bind fun level _ => ?_
      refine badAddr_draws.bind fun badaddr hbad => ?_
      refine (fillPrintable_draws len).bind fun scratch hscratch => Draws.pure ?_
      exact interleaveFiles_passes (Nat.le_trans hlen.2 (by decide)) hscratch hbad
  | flush =>
      refine (rngRange_draws (by decide) (by decide)).bind fun len hlen => ?_
      refine (draws_any _).bind fun level _ => ?_
      refine (fillPrintable_draws len).bind fun scratch hscratch => Draws.pure ?_
      exact flushFiles_passes (Nat.le_trans hlen.2 (by decide)) hscratch
  | stat =>
      refine (draws_any _).bind fun level _ => ?_
      refine (rngRange_draws (by decide) (by decide)).bind fun len hlen => ?_
      refine (draws_any _).bind fun count _ => ?_
      refine (rngRange_draws (by decide) (by decide)).bind fun small hsmall => ?_
      refine badAddr_draws.bind fun badaddr hbad => ?_
      refine (fillPrintable_draws len).bind fun scratch hscratch => Draws.pure ?_
      have hsize : small.toNat < statsSize := Nat.lt_of_le_of_lt hsmall.2 (by decide)
      exact statFiles_passes (Nat.le_trans hlen.2 (by decide)) hscratch hsize hbad

theorem nop_passes_iff (seed : UInt64) :
    Passes d.toMmioDevice frame ram (oracle .nop seed) ↔ firstWord seed % 65533 ≠ 0 := by
  have hfiles : oracle .nop seed = nopFiles (3 + firstWord seed % 65533) := rfl
  have hmod : (firstWord seed % 65533).toNat < 65533 := by
    rw [UInt32.toNat_mod]
    exact Nat.mod_lt _ (by decide)
  have hthree : (3 : UInt32).toNat = 3 := rfl
  have hcmd : (3 + firstWord seed % 65533).toNat = 3 + (firstWord seed % 65533).toNat := by
    rw [UInt32.toNat_add, hthree, Nat.mod_eq_of_lt (by omega)]
  rw [hfiles, nopFiles_passes_iff (by omega), not_iff_not]
  have hzero : (0 : UInt32).toNat = 0 := rfl
  have hstat : cmdStat.toNat = 3 := rfl
  rw [← UInt32.toNat_inj, hcmd, hstat, ← UInt32.toNat_inj, hzero]
  omega

/-- The length that the malformed command asks for. -/
def badLen (seed : UInt64) : UInt32 := vlogMaxMsg + 1 + secondWord seed % 95904

theorem badLen_toNat (seed : UInt64) :
    (badLen seed).toNat = 4097 + (secondWord seed).toNat % 95904 := by
  have hmod : (secondWord seed).toNat % 95904 < 95904 := Nat.mod_lt _ (by decide)
  have hmin : (vlogMaxMsg + 1).toNat = 4097 := rfl
  have hrange : (95904 : UInt32).toNat = 95904 := rfl
  rw [badLen, UInt32.toNat_add, UInt32.toNat_mod, hmin, hrange, Nat.mod_eq_of_lt (by omega)]

theorem badLen_gt (seed : UInt64) : vlogMaxMsg < badLen seed := by
  have hmax : vlogMaxMsg.toNat = 4096 := rfl
  rw [UInt32.lt_iff_toNat_lt, badLen_toNat, hmax]
  omega

theorem malformed_files (seed : UInt64) : ∃ level badaddr scratch, badaddr.toNat < ramBase ∧
    oracle .malformed seed = malformedFiles level (badLen seed) badaddr scratch :=
  ⟨_, _, _, badAddr_draws _, rfl⟩

/-- A device that answers with the length passes, and one that answers with the address fails. -/
theorem malformed_passes_iff (seed : UInt64) {code : UInt8} (hcode : code = errBadLen ∨ code = errBadAddr)
    (hlen : ∀ (s : Seen) (level : UInt32),
      Reports d cmdLog (s.request level Bootinfo.start.scratchAddr (badLen seed)).regs code) :
    Passes d.toMmioDevice frame ram (oracle .malformed seed) ↔ code = errBadLen := by
  obtain ⟨level, badaddr, scratch, hbad, hfiles⟩ := malformed_files seed
  rw [hfiles]
  exact malformedFiles_passes_iff hcode (fun s => hlen s level) hbad

theorem malformed_passes (seed : UInt64)
    (h : p = .any → InRam Bootinfo.start.scratchAddr (badLen seed).toNat) :
    Passes d.toMmioDevice frame ram (oracle .malformed seed) := by
  refine (malformed_passes_iff seed (.inl rfl) ?_).mpr rfl
  intro s level
  apply reports_of_outcomes
  by_cases hram : InRam Bootinfo.start.scratchAddr (badLen seed).toNat
  · apply outcomes_single
    rw [faults_log]
    exact logFaults_badLen (badLen_gt seed) hram
  · cases p with
    | any => exact absurd (h rfl) hram
    | listed =>
        apply outcomes_listed
        rw [faults_log]
        exact logFaults_both (badLen_gt seed) hram

theorem reference_reports (cmd : UInt32) (r : VlogDevice) :
    Reports (referenceDevice p) cmd r (lastOutcome p cmd r) := by
  rintro m rfl
  apply seen_command
  have hwrite := referenceWrite_cmd p m.dev m.mem cmd
  have hworld : ((mmioW32 regCmd cmd).run m).2.world = referenceRun p cmd m.world :=
    congrArg (fun r : (VlogDevice × List Byte) × Memory =>
      ({ regs := r.1.1, log := r.1.2, mem := r.2 } : World)) hwrite
  rw [hworld]
  exact World.report_fields _ _

theorem malformed_fails (seed : UInt64)
    (h : ¬ InRam Bootinfo.start.scratchAddr (badLen seed).toNat) :
    ¬ Passes (referenceDevice .any).toMmioDevice frame ram (oracle .malformed seed) := by
  have hfaults := logFaults_both (badLen_gt seed) h
  rw [malformed_passes_iff seed (.inr rfl)]
  · decide
  · intro s level
    have hlast : lastOutcome .any cmdLog
        (s.request level Bootinfo.start.scratchAddr (badLen seed)).regs = errBadAddr := by
      simp [lastOutcome, outcomes, faults_log, hfaults, Priority.codes]
    rw [← hlast]
    exact reference_reports _ _

end Vlog.Guest
