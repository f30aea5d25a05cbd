import Vlog.Guest.Library
import Vlog.Device.Lemmas.Spec
import Vlog.Libc.Hex

/-!
# The guest library over a device that follows the contract

Runs of guest programs up to the reserved bits of STATUS. `Sim` takes a program from one such state to
the next, whatever the device is.
-/

namespace Vlog.Guest

open Vlog.Lib Vlog.Libc Vlog.Device
open Vlog.Emulator (Record)

variable {p : Priority} {d : SpecDevice p} {α β : Type}

/-! ## What the contract says about a machine -/

structure Seen extends World where
  out : List Byte

def Machine.world (m : Machine d.toMmioDevice) : World :=
  { regs := d.view m.dev, log := d.log m.dev, mem := m.mem }

def Machine.seen (m : Machine d.toMmioDevice) : Seen := { toWorld := m.world.fields, out := m.out }

/-- From every machine that looks like `s`, the program returns `a` and leaves one that looks like `s'`. -/
def Sim (d : SpecDevice p) (prog : GuestM d.toMmioDevice α) (s : Seen) (a : α) (s' : Seen) : Prop :=
  ∀ m : Machine d.toMmioDevice, m.seen = s → (prog.run m).1 = a ∧ (prog.run m).2.seen = s'

variable {s s' s'' : Seen}

theorem Sim.pure (a : α) : Sim d (Pure.pure a) s a s := by
  intro m hm
  exact ⟨rfl, hm⟩

theorem Sim.bind {prog : GuestM d.toMmioDevice α} {next : α → GuestM d.toMmioDevice β} {a : α} {b : β}
    (h : Sim d prog s a s') (h' : Sim d (next a) s' b s'') : Sim d (prog >>= next) s b s'' := by
  intro m hm
  obtain ⟨ha, hs⟩ := h m hm
  subst ha
  exact h' _ hs

/-! ## Registers -/

def Seen.operand (s : Seen) (off : Nat) (v : UInt32) : Seen := { s with regs := s.regs.write off v }

theorem mmioW32_operand {off : Nat} {v : UInt32} (h : off ≠ regCmd) :
    Sim d (mmioW32 off v) s () (s.operand off v) := by
  intro m hm
  subst hm
  obtain ⟨hregs, hlog, hmem⟩ := d.writes m.dev m.mem off v h
  refine ⟨rfl, ?_⟩
  have hworld : Machine.world ((mmioW32 off v).run m).2 =
      { m.world with regs := m.world.regs.write off v } := by
    simp only [Machine.world, ← hregs, ← hlog]
    congr 1
  rw [Machine.seen, hworld, write_fields]
  rfl

theorem mmioR32_run (m : Machine d.toMmioDevice) (off : Nat) :
    ((mmioR32 off).run m).1 = (d.view m.dev).read off ∧ ((mmioR32 off).run m).2.world = m.world := by
  obtain ⟨hval, hview, hlog⟩ := d.reads m.dev off
  refine ⟨hval, ?_⟩
  have hworld : ((mmioR32 off).run m).2.world =
      { regs := d.view (d.mmioRead m.dev off).2, log := d.log (d.mmioRead m.dev off).2
        mem := m.mem } := rfl
  rw [hworld, hview, hlog]
  rfl

theorem mmioR32_seen (m : Machine d.toMmioDevice) (off : Nat) : ((mmioR32 off).run m).2.seen = m.seen := by
  rw [Machine.seen, (mmioR32_run m off).2]
  rfl

theorem mmioR32_register {off : Nat} (h : off ≠ regStatus) :
    Sim d (mmioR32 off) s (s.regs.read off) s := by
  intro m hm
  subst hm
  refine ⟨?_, mmioR32_seen m off⟩
  rw [(mmioR32_run m off).1]
  simp only [VlogDevice.read, Machine.seen, Machine.world, World.fields, if_neg h]

/-- A use of STATUS that looks at its fields only. -/
theorem vlogStatus_sim {f : UInt32 → α} (hf : ∀ st, f (st &&& statusFields) = f st) :
    Sim d (do return f (← vlogStatus)) s (f s.regs.status) s := by
  intro m hm
  subst hm
  refine ⟨?_, mmioR32_seen m regStatus⟩
  have hread : ((vlogStatus (d := d.toMmioDevice)).run m).1 = (d.view m.dev).status :=
    (mmioR32_run m regStatus).1
  have hrun : ((do return f (← vlogStatus (d := d.toMmioDevice))).run m).1 =
      f ((vlogStatus (d := d.toMmioDevice)).run m).1 := rfl
  rw [hrun, hread]
  exact (hf _).symm

/-! ## Commands -/

def Seen.command (s : Seen) (cmd : UInt32) (code : UInt8) : Seen :=
  { toWorld := (perform cmd code s.toWorld).report code, out := s.out }

theorem seen_command {m : Machine d.toMmioDevice} {cmd : UInt32} {code : UInt8}
    (h : ((mmioW32 regCmd cmd).run m).2.world.fields = (perform cmd code m.world).report code) :
    ((mmioW32 regCmd cmd).run m).2.seen = m.seen.command cmd code := by
  have hseen : ((mmioW32 regCmd cmd).run m).2.seen =
      { toWorld := (perform cmd code m.world).report code, out := m.out } :=
    congrArg (fun w : World => ({ toWorld := w, out := m.out } : Seen)) h
  rw [hseen, ← perform_fields]
  rfl

theorem command_cases (m : Machine d.toMmioDevice) (cmd : UInt32) :
    ∃ code ∈ outcomes p cmd m.seen.regs, ((mmioW32 regCmd cmd).run m).2.seen = m.seen.command cmd code := by
  obtain ⟨code, hcode, hrun⟩ := d.executes m.dev m.mem cmd
  exact ⟨code, hcode, seen_command hrun⟩

/-- The device ends the command with this code, wherever it has these registers. -/
def Reports (d : SpecDevice p) (cmd : UInt32) (r : VlogDevice) (code : UInt8) : Prop :=
  ∀ m : Machine d.toMmioDevice, m.seen.regs = r →
    ((mmioW32 regCmd cmd).run m).2.seen = m.seen.command cmd code

theorem reports_of_outcomes {cmd : UInt32} {r : VlogDevice} {code : UInt8}
    (h : outcomes p cmd r = [code]) : Reports d cmd r code := by
  intro m hm
  obtain ⟨code', hcode, hseen⟩ := command_cases m cmd
  rw [hm, h, List.mem_singleton] at hcode
  rw [hseen, hcode]

theorem mmioW32_cmd {cmd : UInt32} {code : UInt8} (h : Reports d cmd s.regs code) :
    Sim d (mmioW32 regCmd cmd) s () (s.command cmd code) := by
  intro m hm
  subst hm
  exact ⟨rfl, h m rfl⟩

/-! ## Memory and console -/

def Seen.print (s : Seen) (text : List Byte) : Seen := { s with out := s.out ++ text }

def Seen.store (s : Seen) (a : UInt64) (val : UInt32) : Seen :=
  { s with mem := s.mem.store a.toNat (Memory.leBytes 4 val.toNat) }

theorem load32_sim (a : UInt64) : Sim d (load32 a) s (UInt32.ofNat (s.mem.load a.toNat 4)) s := by
  intro m hm
  subst hm
  exact ⟨rfl, rfl⟩

theorem load64_sim (a : UInt64) : Sim d (load64 a) s (UInt64.ofNat (s.mem.load a.toNat 8)) s := by
  intro m hm
  subst hm
  exact ⟨rfl, rfl⟩

theorem store32_sim (a : UInt64) (val : UInt32) : Sim d (store32 a val) s () (s.store a val) := by
  intro m hm
  subst hm
  exact ⟨rfl, rfl⟩

theorem putc_sim (c : Byte) : Sim d (putc c) s () (s.print [c]) := by
  intro m hm
  subst hm
  exact ⟨rfl, rfl⟩

theorem print_nil : s.print [] = s := by simp [Seen.print]

@[simp] theorem print_print (a b : List Byte) : (s.print a).print b = s.print (a ++ b) := by
  simp [Seen.print]

theorem puts_sim (text : List Byte) : Sim d (puts text) s () (s.print text) := by
  induction text generalizing s with
  | nil =>
      rw [print_nil]
      exact Sim.pure ()
  | cons c text ih =>
      rw [← List.singleton_append, ← print_print]
      exact (putc_sim c).bind ih

theorem hexDigits_get (v i : UInt32) (k : Nat) (hi : i.toNat = 4 * k) (hk : k < 8) :
    hexDigits.getD ((v >>> i) &&& 0xf).toNat 0 =
      UInt8.ofNat (Nat.digitChar (v.toNat / 16 ^ k % 16)).toNat := by
  have hnibble : ((v >>> i) &&& 0xf).toNat = v.toNat / 16 ^ k % 16 := by
    rw [UInt32.toNat_and, UInt32.toNat_shiftRight, hi, Nat.mod_eq_of_lt (by omega),
      Nat.shiftRight_eq_div_pow, pow_mul]
    exact Nat.and_two_pow_sub_one_eq_mod _ 4
  have hall : ∀ x < 16, hexDigits.getD x 0 = UInt8.ofNat (Nat.digitChar x).toNat := by decide
  rw [hnibble]
  exact hall _ (Nat.mod_lt _ (by decide))

theorem puthex_sim (v : UInt32) : Sim d (puthex v) s () (s.print (lit "0x" ++ fmtX8 v)) := by
  have hdigits : (([28, 24, 20, 16, 12, 8, 4, 0] : List UInt32).map fun i =>
      hexDigits.getD ((v >>> i) &&& 0xf).toNat 0) = fmtX8 v := by
    rw [fmtX8_digits]
    simp only [List.map_cons, List.map_nil]
    rw [hexDigits_get v 28 7 rfl (by decide), hexDigits_get v 24 6 rfl (by decide),
      hexDigits_get v 20 5 rfl (by decide), hexDigits_get v 16 4 rfl (by decide),
      hexDigits_get v 12 3 rfl (by decide), hexDigits_get v 8 2 rfl (by decide),
      hexDigits_get v 4 1 rfl (by decide), hexDigits_get v 0 0 rfl (by decide)]
  have htext : s.print (lit "0x" ++ fmtX8 v) =
      ((s.print [UInt8.ofNat '0'.toNat]).print [UInt8.ofNat 'x'.toNat]).print (fmtX8 v) := by
    rw [print_print, print_print]
    rfl
  unfold puthex
  rw [hdigits, htext]
  exact (putc_sim _).bind ((putc_sim _).bind (puts_sim _))

/-! ## The logging device -/

/-- The operand registers as a call leaves them. -/
def Seen.request (s : Seen) (level : UInt32) (msg : UInt64) (len : UInt32) : Seen :=
  { s with regs := { s.regs with msgAddrLo := msg.toUInt32, msgAddrHi := (msg >>> 32).toUInt32
                                 len := len, level := level } }

/-- A message that the device has taken. -/
def Seen.logged (s : Seen) (level : UInt32) (msg : UInt64) (len : UInt32) : Seen :=
  { s.request level msg len with
    regs := { (s.request level msg len).regs with
      status := statusWord errNone, seq := s.regs.seq + 1, bytes := s.regs.bytes + len }
    log := s.log ++ Record.text { seq := s.regs.seq, level := level
                                  bytes := s.mem.slice msg.toNat len.toNat } }

/-- A command that changes nothing but STATUS. -/
def Seen.ended (s : Seen) (code : UInt8) : Seen :=
  { s with regs := { s.regs with status := statusWord code } }

/-- The struct that STAT fills in. -/
def Seen.stats (s : Seen) : List Byte :=
  Memory.leBytes 4 s.regs.seq.toNat ++ Memory.leBytes 4 s.regs.bytes.toNat

/-- A STAT that the device has answered. -/
def Seen.filled (s : Seen) (msg : UInt64) (len : UInt32) : Seen :=
  { (s.request s.regs.level msg len).ended errNone with mem := s.mem.store msg.toNat s.stats }

section

-- `(rfl)` and not `rfl`: as definitional equations they would leave whole transcripts to the kernel.
variable (a : UInt64) (n level len : UInt32) (msg : UInt64) (code : UInt8) (text : List Byte)

@[simp] theorem print_regs : (s.print text).regs = s.regs := (rfl)
@[simp] theorem print_log : (s.print text).log = s.log := (rfl)
@[simp] theorem print_mem : (s.print text).mem = s.mem := (rfl)
@[simp] theorem print_out : (s.print text).out = s.out ++ text := (rfl)

@[simp] theorem store_regs : (s.store a n).regs = s.regs := (rfl)
@[simp] theorem store_log : (s.store a n).log = s.log := (rfl)
@[simp] theorem store_out : (s.store a n).out = s.out := (rfl)
@[simp] theorem store_mem :
    (s.store a n).mem = s.mem.store a.toNat (Memory.leBytes 4 n.toNat) := (rfl)

@[simp] theorem request_seq : (s.request level msg len).regs.seq = s.regs.seq := (rfl)
@[simp] theorem request_bytes : (s.request level msg len).regs.bytes = s.regs.bytes := (rfl)
@[simp] theorem request_log : (s.request level msg len).log = s.log := (rfl)
@[simp] theorem request_mem : (s.request level msg len).mem = s.mem := (rfl)
@[simp] theorem request_out : (s.request level msg len).out = s.out := (rfl)

@[simp] theorem logged_seq : (s.logged level msg len).regs.seq = s.regs.seq + 1 := (rfl)
@[simp] theorem logged_bytes : (s.logged level msg len).regs.bytes = s.regs.bytes + len := (rfl)
@[simp] theorem logged_mem : (s.logged level msg len).mem = s.mem := (rfl)
@[simp] theorem logged_out : (s.logged level msg len).out = s.out := (rfl)
@[simp] theorem logged_log : (s.logged level msg len).log =
    s.log ++ Record.text { seq := s.regs.seq, level := level
                           bytes := s.mem.slice msg.toNat len.toNat } := (rfl)

@[simp] theorem ended_seq : (s.ended code).regs.seq = s.regs.seq := (rfl)
@[simp] theorem ended_bytes : (s.ended code).regs.bytes = s.regs.bytes := (rfl)
@[simp] theorem ended_log : (s.ended code).log = s.log := (rfl)
@[simp] theorem ended_mem : (s.ended code).mem = s.mem := (rfl)
@[simp] theorem ended_out : (s.ended code).out = s.out := (rfl)

@[simp] theorem filled_seq : (s.filled msg len).regs.seq = s.regs.seq := (rfl)
@[simp] theorem filled_log : (s.filled msg len).log = s.log := (rfl)
@[simp] theorem filled_mem : (s.filled msg len).mem = s.mem.store msg.toNat s.stats := (rfl)
@[simp] theorem filled_out : (s.filled msg len).out = s.out := (rfl)

end

theorem request_msgAddr (level : UInt32) (msg : UInt64) (len : UInt32) :
    msgAddr (s.request level msg len).regs = msg := by
  have hlo : msg.toUInt32.toUInt64.toNat = msg.toNat % 2 ^ 32 := by simp
  have hhi : ((msg >>> 32).toUInt32.toUInt64 <<< 32).toNat = msg.toNat / 2 ^ 32 * 2 ^ 32 := by
    have hlt := msg.toNat_lt
    simp [Nat.shiftLeft_eq, Nat.shiftRight_eq_div_pow]
    omega
  rw [← UInt64.toNat_inj]
  simp only [msgAddr, Seen.request, UInt64.toNat_or, hlo, hhi]
  rw [Nat.or_comm, ← Nat.shiftLeft_eq, ← Nat.shiftLeft_add_eq_or_of_lt (Nat.mod_lt _ (by decide)),
    Nat.shiftLeft_eq]
  omega

theorem command_failed {cmd : UInt32} {code : UInt8} (h : code ≠ errNone) :
    s.command cmd code = s.ended code := by
  simp only [Seen.command, perform, if_neg h]
  rfl

theorem statusResult_sim {code : UInt8} (h : s.regs.status = statusWord code) :
    Sim d (do return statusResult (← mmioR32 regStatus)) s code.toUInt32 s := by
  have hsim := vlogStatus_sim (d := d) (s := s) statusResult_fields
  rw [h, statusResult_word] at hsim
  exact hsim

theorem vlogWrite_sim {level : UInt32} {msg : UInt64} {len : UInt32} {code : UInt8}
    (h : Reports d cmdLog (s.request level msg len).regs code) :
    Sim d (vlogWrite level msg len) s code.toUInt32 ((s.request level msg len).command cmdLog code) := by
  have hrequest : s.request level msg len =
      (((s.operand regMsgLo msg.toUInt32).operand regMsgHi (msg >>> 32).toUInt32).operand
        regLen len).operand regLevel level := rfl
  rw [hrequest] at h ⊢
  apply (mmioW32_operand (by decide)).bind
  apply (mmioW32_operand (by decide)).bind
  apply (mmioW32_operand (by decide)).bind
  apply (mmioW32_operand (by decide)).bind
  apply (mmioW32_cmd h).bind
  exact statusResult_sim rfl

theorem faults_log (level : UInt32) (msg : UInt64) (len : UInt32) :
    faults cmdLog (s.request level msg len).regs = logFaults msg len := by
  have hfaults : faults cmdLog (s.request level msg len).regs =
      logFaults (msgAddr (s.request level msg len).regs) len := rfl
  rw [hfaults, request_msgAddr]

theorem vlogWrite_logged {level : UInt32} {msg : UInt64} {len : UInt32} (h : logFaults msg len = []) :
    Sim d (vlogWrite level msg len) s 0 (s.logged level msg len) := by
  rw [← faults_log (s := s) level] at h
  have hsim := vlogWrite_sim (d := d) (reports_of_outcomes (outcomes_success h))
  have hstate : (s.request level msg len).command cmdLog errNone = s.logged level msg len := by
    simp only [Seen.command, perform, effect, ↓reduceIte, request_msgAddr]
    rfl
  rw [hstate] at hsim
  exact hsim

theorem vlogWrite_failed {level : UInt32} {msg : UInt64} {len : UInt32} {code : UInt8}
    (hne : code ≠ errNone) (h : Reports d cmdLog (s.request level msg len).regs code) :
    Sim d (vlogWrite level msg len) s code.toUInt32 ((s.request level msg len).ended code) := by
  rw [← command_failed hne]
  exact vlogWrite_sim h

theorem vlogWrite_refused {level : UInt32} {msg : UInt64} {len : UInt32} {code : UInt8}
    (h : logFaults msg len = [code]) :
    Sim d (vlogWrite level msg len) s code.toUInt32 ((s.request level msg len).ended code) := by
  rw [← faults_log (s := s) level] at h
  exact vlogWrite_failed (ne_errNone_of_faults h) (reports_of_outcomes (outcomes_single h))

theorem command_quiet {cmd : UInt32} (h : cmd = cmdNop ∨ cmd = cmdFlush) :
    s.command cmd errNone = s.ended errNone := by
  rcases h with rfl | rfl <;> rfl

theorem vlogStat_sim {msg : UInt64} {len : UInt32} {code : UInt8}
    (h : Reports d cmdStat (s.request s.regs.level msg len).regs code) :
    Sim d (vlogStat msg len) s code.toUInt32
      ((s.request s.regs.level msg len).command cmdStat code) := by
  have hlow : (msg &&& 0xffffffff).toUInt32 = msg.toUInt32 := by
    rw [UInt64.toUInt32_and]
    exact UInt32.and_neg_one
  have hrequest : s.request s.regs.level msg len =
      ((s.operand regMsgLo msg.toUInt32).operand regMsgHi (msg >>> 32).toUInt32).operand
        regLen len := rfl
  rw [hrequest] at h ⊢
  unfold vlogStat
  rw [hlow]
  apply (mmioW32_operand (by decide)).bind
  apply (mmioW32_operand (by decide)).bind
  apply (mmioW32_operand (by decide)).bind
  apply (mmioW32_cmd h).bind
  exact statusResult_sim rfl

theorem faults_stat (level : UInt32) (msg : UInt64) (len : UInt32) :
    faults cmdStat (s.request level msg len).regs = statFaults msg len := by
  have hfaults : faults cmdStat (s.request level msg len).regs =
      statFaults (msgAddr (s.request level msg len).regs) len := rfl
  rw [hfaults, request_msgAddr]

theorem vlogStat_filled {msg : UInt64} {len : UInt32} (h : statFaults msg len = []) :
    Sim d (vlogStat msg len) s 0 (s.filled msg len) := by
  rw [← faults_stat (s := s) s.regs.level] at h
  have hsim := vlogStat_sim (d := d) (reports_of_outcomes (outcomes_success h))
  have hstate : (s.request s.regs.level msg len).command cmdStat errNone = s.filled msg len := by
    have hcmd : cmdStat ≠ cmdLog := by decide
    simp only [Seen.command, perform, effect, ↓reduceIte, request_msgAddr, if_neg hcmd]
    rfl
  rw [hstate] at hsim
  exact hsim

theorem vlogStat_refused {msg : UInt64} {len : UInt32} {code : UInt8}
    (h : statFaults msg len = [code]) :
    Sim d (vlogStat msg len) s code.toUInt32 ((s.request s.regs.level msg len).ended code) := by
  rw [← faults_stat (s := s) s.regs.level] at h
  rw [← command_failed (ne_errNone_of_faults h)]
  exact vlogStat_sim (reports_of_outcomes (outcomes_single h))

end Vlog.Guest
