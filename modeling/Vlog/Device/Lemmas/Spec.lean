import Vlog.Device.Spec
import Vlog.Device.Lemmas.Status

/-!
# Lemmas on the contract

The fields of STATUS, the errors of a command and the codes that it may end with.
-/

namespace Vlog.Device

open Vlog.Lib Vlog.Libc

/-! ## The fields of STATUS -/

theorem status_and_error (st : UInt32) : st &&& statusFields &&& statusError = st &&& statusError := by
  rw [UInt32.and_assoc]
  rfl

theorem status_and_code (st : UInt32) :
    ((st &&& statusFields) >>> 8) &&& (0xff : UInt32) = (st >>> 8) &&& 0xff := by
  rw [UInt32.shiftRight_and, UInt32.and_assoc]
  rfl

theorem statusResult_fields (st : UInt32) : statusResult (st &&& statusFields) = statusResult st := by
  rw [statusResult, statusResult, status_and_error, status_and_code]

@[simp] theorem statusWord_fields (code : UInt8) : statusWord code &&& statusFields = statusWord code := by
  revert code
  decide +kernel

theorem statusResult_word (code : UInt8) : statusResult (statusWord code) = code.toUInt32 := by
  unfold statusWord
  split
  · rename_i h
    rw [h]
    decide
  · exact statusResult_error code

theorem errorBit_word (code : UInt8) :
    (if statusWord code &&& statusError ≠ 0 then (1 : UInt32) else 0) =
      if code = errNone then 0 else 1 := by
  revert code
  decide +kernel

theorem codeField_word (code : UInt8) : (statusWord code >>> 8) &&& 0xff = code.toUInt32 := by
  revert code
  decide +kernel

theorem write_fields (w : World) (off : Nat) (v : UInt32) :
    World.fields { w with regs := w.regs.write off v } =
      { w.fields with regs := w.fields.regs.write off v } := by
  simp only [World.fields, VlogDevice.write]
  split_ifs <;> rfl

theorem perform_fields (cmd : UInt32) (code : UInt8) (w : World) :
    (perform cmd code w.fields).report code = (perform cmd code w).report code := by
  simp only [perform, effect, World.report, World.fields, msgAddr]
  split_ifs <;> rfl

theorem World.report_fields (w : World) (code : UInt8) : (w.report code).fields = w.report code := by
  simp [World.report, World.fields]

/-! ## Errors -/

variable {msg : UInt64} {len : UInt32}

theorem logFaults_eq_nil (hlen : len ≤ vlogMaxMsg) (h : len = 0 ∨ InRam msg len.toNat) :
    logFaults msg len = [] := by
  have hmax : ¬ vlogMaxMsg < len := UInt32.not_lt.mpr hlen
  have hout : ¬ (0 < len ∧ ¬ InRam msg len.toNat) := by
    rintro ⟨hpos, hram⟩
    rcases h with rfl | h
    · exact absurd hpos (by decide)
    · exact hram h
  rw [logFaults, if_neg hmax, if_neg hout]
  rfl

theorem logFaults_badAddr (hlen : len ≤ vlogMaxMsg) (hpos : 0 < len) (h : ¬ InRam msg len.toNat) :
    logFaults msg len = [errBadAddr] := by
  have hmax : ¬ vlogMaxMsg < len := UInt32.not_lt.mpr hlen
  rw [logFaults, if_neg hmax, if_pos ⟨hpos, h⟩]
  rfl

theorem logFaults_badLen (hlen : vlogMaxMsg < len) (h : InRam msg len.toNat) :
    logFaults msg len = [errBadLen] := by
  have hout : ¬ (0 < len ∧ ¬ InRam msg len.toNat) := fun hbad => hbad.2 h
  rw [logFaults, if_pos hlen, if_neg hout]
  rfl

theorem logFaults_both (hlen : vlogMaxMsg < len) (h : ¬ InRam msg len.toNat) :
    logFaults msg len = [errBadLen, errBadAddr] := by
  have hpos : 0 < len := UInt32.lt_trans (by decide) hlen
  rw [logFaults, if_pos hlen, if_pos ⟨hpos, h⟩]
  rfl

theorem statFaults_eq_nil (hlen : statsSize ≤ len.toNat) (h : InRam msg statsSize) :
    statFaults msg len = [] := by
  have hmin : ¬ len.toNat < statsSize := by omega
  rw [statFaults, if_neg hmin, if_neg (not_not_intro h)]
  rfl

theorem statFaults_badLen (hlen : len.toNat < statsSize) (h : InRam msg statsSize) :
    statFaults msg len = [errBadLen] := by
  rw [statFaults, if_pos hlen, if_neg (not_not_intro h)]
  rfl

theorem statFaults_badAddr (hlen : statsSize ≤ len.toNat) (h : ¬ InRam msg statsSize) :
    statFaults msg len = [errBadAddr] := by
  have hmin : ¬ len.toNat < statsSize := by omega
  rw [statFaults, if_neg hmin, if_pos h]
  rfl

theorem errNone_not_mem_faults (cmd : UInt32) (r : VlogDevice) : errNone ∉ faults cmd r := by
  unfold faults logFaults statFaults
  split_ifs <;> decide

variable {p : Priority} {cmd : UInt32} {r : VlogDevice} {code : UInt8}

theorem ne_errNone_of_faults (h : faults cmd r = [code]) : code ≠ errNone := by
  intro e
  apply errNone_not_mem_faults cmd r
  rw [h, e]
  exact List.mem_singleton_self _

/-! ## Outcomes -/

theorem Priority.mem_of_mem_codes {codes : List UInt8} (h : code ∈ p.codes codes) : code ∈ codes := by
  cases p with
  | listed => exact List.mem_of_mem_take h
  | any => exact h

theorem outcomes_ne_nil (p : Priority) (cmd : UInt32) (r : VlogDevice) : outcomes p cmd r ≠ [] := by
  unfold outcomes
  split
  · simp
  · rename_i h
    cases p with
    | listed => simpa [Priority.codes] using h
    | any => exact h

theorem outcomes_success (h : faults cmd r = []) :
    outcomes p cmd r = [errNone] := by
  simp [outcomes, h]

theorem outcomes_single (h : faults cmd r = [code]) :
    outcomes p cmd r = [code] := by
  cases p <;> simp [outcomes, h, Priority.codes]

theorem outcomes_listed {codes : List UInt8}
    (h : faults cmd r = code :: codes) : outcomes .listed cmd r = [code] := by
  simp [outcomes, h, Priority.codes]

theorem outcomes_failed (h : faults cmd r ≠ []) (hcode : code ∈ outcomes p cmd r) :
    code ∈ faults cmd r ∧ code ≠ errNone := by
  rw [outcomes, if_neg h] at hcode
  have hmem := Priority.mem_of_mem_codes hcode
  exact ⟨hmem, fun e => errNone_not_mem_faults cmd r (e ▸ hmem)⟩

end Vlog.Device
