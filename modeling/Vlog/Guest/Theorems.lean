import Vlog.Guest.Lemmas.Oracle
import Vlog.Guest.Lemmas.Journal
import Vlog.Emulator.LogFile

/-!
# The guarantees of the test suite

Whether a device that follows the contract passes the randomized checks.
-/

namespace Vlog.Guest

open Vlog.Lib Vlog.Libc Vlog.Device

/-! ## The oracle and the contract -/

/-- Every device that follows the contract passes the check, except for two kinds of seed: those that draw
STAT as the unknown command and, unless the length is checked first, those whose bad length also leaves
RAM. -/
theorem oracle_agrees (p : Priority) (scen : Scenario) (seed : UInt64) :
    (∀ (d : SpecDevice p) (frame : Frame) (ram : Memory),
        Passes d.toMmioDevice frame ram (oracle scen seed)) ↔
      (scen = .nop → firstWord seed % 65533 ≠ 0) ∧
      (scen = .malformed → p = .any →
        InRam Bootinfo.start.scratchAddr (4097 + (secondWord seed).toNat % 95904)) := by
  constructor
  · intro h
    have hpass := h (referenceDevice p) Frame.top fun _ => 0
    refine ⟨?_, ?_⟩
    · rintro rfl
      exact (nop_passes_iff seed).mp hpass
    · rintro rfl rfl
      rw [← badLen_toNat]
      by_contra hout
      exact malformed_fails seed hout hpass
  · rintro ⟨hnop, hmal⟩ d frame ram
    by_cases h₁ : scen = .nop
    · subst h₁
      exact (nop_passes_iff seed).mpr (hnop rfl)
    · by_cases h₂ : scen = .malformed
      · subst h₂
        rw [← badLen_toNat] at hmal
        exact malformed_passes seed (hmal rfl)
      · exact files_pass h₁ h₂ (rngSeed seed)

/-- With this seed the unknown command is STAT, and no device that follows the contract passes. -/
theorem oracle_agrees_stat :
    (¬ ∀ (p : Priority) (scen : Scenario) (seed : UInt64) (d : SpecDevice p) (frame : Frame)
        (ram : Memory), Passes d.toMmioDevice frame ram (oracle scen seed)) ∧
      ∀ (p : Priority) (d : SpecDevice p) (frame : Frame) (ram : Memory),
        ¬ Passes d.toMmioDevice frame ram (oracle .nop 71159) := by
  have hfails : ∀ (p : Priority) (d : SpecDevice p) (frame : Frame) (ram : Memory),
      ¬ Passes d.toMmioDevice frame ram (oracle .nop 71159) := by
    intro p d frame ram
    rw [nop_passes_iff]
    decide
  refine ⟨?_, hfails⟩
  intro h
  exact hfails .listed (referenceDevice .listed) Frame.top (fun _ => 0) (h _ _ _ _ _ _)

/-! ## The library and the journal -/

open Vlog.Emulator (Record decodeLog) in
/-- Over every device that follows the contract, a guest program sees nothing but its journal: what each call
returns, the guest's memory and the console are the journal's, and the log file is the journal's lines, one for
each message that returned 0, numbered in the order of the calls. Only a call that goes outside of the RAM does
not return. -/
theorem library_refines {p : Priority} (d : SpecDevice p) (calls : List Call) (mem : Memory) :
    let r := (runCalls calls).run ({ dev := d.init, mem := mem, out := [] } : Machine d.toMmioDevice)
    ∃ j, Run (Journal.Steps p) (.start mem) (calls.zip r.1) j ∧
      d.log r.2.dev = j.records.flatMap Record.text ∧ r.2.mem = j.mem ∧ r.2.out = j.out ∧
      j.records.length = (calls.zip r.1).countP Call.logged ∧
      ((∀ l ∈ j.lines, newline ∉ l.2) → decodeLog (d.log r.2.dev) = some (j.records.map Record.entry)) ∧
      (r.1.length = calls.length ∨ ∃ c, calls[r.1.length]? = some c ∧ j.Strays c) := by
  intro r
  obtain ⟨j, hsteps, hshows, hrest⟩ := runCalls_steps calls (shows_start d mem)
  have hlog : d.log r.2.dev = j.records.flatMap Record.text := hshows.log
  refine ⟨j, hsteps, hlog, hshows.mem, hshows.out, ?_, ?_, hrest⟩
  · have hlen := run_lines_length hsteps
    rw [Journal.records, List.length_mapIdx, hlen]
    exact Nat.zero_add _
  · intro hclean
    rw [hlog]
    apply Emulator.decodeLog_text
    intro rec hrec
    obtain ⟨i, hi, rfl⟩ := List.mem_mapIdx.mp hrec
    exact hclean _ (List.getElem_mem hi)

end Vlog.Guest
