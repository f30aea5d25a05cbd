import Vlog.Guest.Oracle
import Vlog.Guest.Scenarios
import Vlog.Guest.Lemmas.Library

/-!
# The blob in the guest's memory

What the oracle packs is what the guest reads.
-/

namespace Vlog.Guest

open Vlog.Lib Vlog.Libc Vlog.Device

variable {p : Priority} {d : SpecDevice p} {s : Seen} {bi : Bootinfo} {scratch : List Byte}

theorem load32_holds {a : UInt64} {v : UInt32} (h : s.mem.Holds a.toNat (Memory.leBytes 4 v.toNat)) :
    Sim d (load32 a) s v s := by
  have hsim := load32_sim (d := d) (s := s) a
  have hv : v.toNat % 256 ^ 4 = v.toNat := Nat.mod_eq_of_lt v.toNat_lt
  rw [h.load, hv, UInt32.ofNat_toNat] at hsim
  exact hsim

theorem load64_holds {a : UInt64} {v : UInt64} (h : s.mem.Holds a.toNat (Memory.leBytes 8 v.toNat)) :
    Sim d (load64 a) s v s := by
  have hsim := load64_sim (d := d) (s := s) a
  have hv : v.toNat % 256 ^ 8 = v.toNat := Nat.mod_eq_of_lt v.toNat_lt
  rw [h.load, hv, UInt64.ofNat_toNat] at hsim
  exact hsim

@[simp] theorem packed_length (bi : Bootinfo) : bi.packed.length = 36 := by simp [Bootinfo.packed]

/-- The blob stands in memory where the guest looks for it. -/
structure Loaded (mem : Memory) (bi : Bootinfo) (scratch : List Byte) : Prop where
  header : mem.Holds bootinfoBase.toNat bi.packed
  scratch : mem.Holds (bootinfoBase.toNat + bootinfoHdrBytes) scratch

theorem loaded_writeBlob {mem : Memory} (h : mem.Holds bootinfoBase.toNat (writeBlob bi scratch)) :
    Loaded mem bi scratch := by
  rw [writeBlob, Memory.holds_append, Memory.holds_append] at h
  refine ⟨h.1.1, ?_⟩
  have hlen : (bi.packed ++ List.replicate (bootinfoHdrBytes - bi.packed.length) 0).length =
      bootinfoHdrBytes := by simp [bootinfoHdrBytes]
  rw [hlen] at h
  exact h.2

theorem Loaded.store {mem : Memory} (h : Loaded mem bi scratch) {a : Nat} {bs : List Byte}
    (ha : a + bs.length ≤ bootinfoBase.toNat) : Loaded (mem.store a bs) bi scratch :=
  ⟨h.header.store (.inr ha), h.scratch.store (.inr (by omega))⟩

theorem Loaded.slice {mem : Memory} (h : Loaded mem bi scratch) :
    mem.slice (bootinfoBase.toNat + bootinfoHdrBytes) scratch.length = scratch := h.scratch

theorem readBootinfo_sim (h : Loaded s.mem bi scratch) : Sim d (readBootinfo bootinfoBase) s bi s := by
  have hfields := h.header
  simp only [Bootinfo.packed, Memory.holds_append, Memory.leBytes_length, List.length_append] at hfields
  obtain ⟨⟨⟨⟨⟨⟨⟨h₀, h₁⟩, h₂⟩, h₃⟩, h₄⟩, h₅⟩, h₆⟩, h₇⟩ := hfields
  unfold readBootinfo
  apply (load32_holds h₀).bind
  apply (load32_holds h₁).bind
  apply (load64_holds h₂).bind
  apply (load32_holds h₃).bind
  apply (load32_holds h₄).bind
  apply (load32_holds h₅).bind
  apply (load32_holds h₆).bind
  apply (load32_holds h₇).bind
  exact Sim.pure _

end Vlog.Guest
