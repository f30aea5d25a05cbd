import Vlog.Device.Lemmas.Spec

/-!
# A device that follows the contract

The contract can be met: a device whose state is the registers and the log file, and which reports the
last of the codes that the contract leaves to it.
-/

namespace Vlog.Device

open Vlog.Lib Vlog.Libc

def lastOutcome (p : Priority) (cmd : UInt32) (r : VlogDevice) : UInt8 :=
  (outcomes p cmd r).getLast (outcomes_ne_nil p cmd r)

/-! ## The device -/

def referenceRun (p : Priority) (cmd : UInt32) (w : World) : World :=
  let code := lastOutcome p cmd w.regs
  (perform cmd code w).report code

def referenceWrite (p : Priority) (s : VlogDevice × List Byte) (mem : Memory) (off : Nat) (v : UInt32) :
    (VlogDevice × List Byte) × Memory :=
  if off = regCmd then
    let w := referenceRun p v { regs := s.1, log := s.2, mem := mem }
    ((w.regs, w.log), w.mem)
  else ((s.1.write off v, s.2), mem)

theorem referenceWrite_cmd (p : Priority) (s : VlogDevice × List Byte) (mem : Memory) (cmd : UInt32) :
    referenceWrite p s mem regCmd cmd =
      let w := referenceRun p cmd { regs := s.1, log := s.2, mem := mem }
      ((w.regs, w.log), w.mem) := if_pos rfl

def referenceDevice (p : Priority) : SpecDevice p where
  State := VlogDevice × List Byte
  init := (vlogDeviceInit, [])
  mmioRead s off := (s.1.read off, s)
  mmioWrite := referenceWrite p
  log s := s.2
  view s := s.1
  view_init := rfl
  log_init := rfl
  reads _ _ := ⟨rfl, rfl, rfl⟩
  writes s mem off v h := by simp [referenceWrite, h]
  executes s mem cmd := by
    refine ⟨lastOutcome p cmd s.1, List.getLast_mem _, ?_⟩
    rw [referenceWrite_cmd]
    exact World.report_fields _ _

end Vlog.Device
