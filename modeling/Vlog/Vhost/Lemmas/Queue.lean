import Vlog.Vhost.Queue

/-!
# Ring sizes of 16 and of 32 bits

A size that 16 bits hold is handed on as it is. Of a larger one its low half is left, and the entries from
there on are out of reach and in the way of `avail_event`.
-/

namespace Vlog.Vhost

open Vlog.Lib

variable {vuq : VuVirtq} {vq : Virtq} {n : Nat}

theorem txView_num (h : txView vuq = some vq) :
    vq.num.toNat = vuq.vring.num.toNat % 65536 ∧ 0 < vuq.vring.num.toNat := by
  unfold txView at h
  split at h
  · cases h
  · rename_i hguard
    cases h
    refine ⟨UInt32.toNat_toUInt16 _, Nat.pos_of_ne_zero ?_⟩
    intro hzero
    exact hguard (.inr (.inr (.inr (UInt32.toNat_inj.mp hzero))))

theorem Virtq.covers_of_le (hpos : 0 < vq.num.toNat) (h : n ≤ vq.num.toNat) : vq.Covers n := by
  intro k hk
  have hne : vq.num ≠ 0 := by
    intro hzero
    rw [hzero] at hpos
    exact absurd hpos (by decide)
  have hlt := vq.num.toNat_lt
  refine ⟨UInt16.ofNat k, UInt16.ofNat k % vq.num, if_neg hne, ?_⟩
  rw [UInt16.toNat_mod, UInt16.toNat_ofNat_of_lt' (by unfold UInt16.size; omega), Nat.mod_eq_of_lt (by omega)]

theorem Virtq.le_of_covers (h : vq.Covers n) (hn : 0 < n) : n ≤ vq.num.toNat := by
  obtain ⟨i, r, hr, hk⟩ := h (n - 1) (by omega)
  unfold Virtq.slot at hr
  split at hr
  · cases hr
  · rename_i hne
    cases hr
    have hpos : 0 < vq.num.toNat := by
      apply Nat.pos_of_ne_zero
      intro hzero
      exact hne (UInt16.toNat_inj.mp hzero)
    have hlt := Nat.mod_lt i.toNat hpos
    rw [UInt16.toNat_mod] at hk
    omega

theorem Virtq.keepsUsed_of_le (h : n ≤ vq.num.toNat) : vq.KeepsUsed n := by
  intro mem x k hk
  apply Memory.slice_store
  left
  unfold usedElem usedElemSize
  omega

/-- The entry whose number the handler takes for the size of the ring is overwritten. -/
theorem Virtq.le_of_keepsUsed (h : vq.KeepsUsed n) : n ≤ vq.num.toNat := by
  by_contra hlt
  have hkeep := h (fun _ => 0) 1 vq.num.toNat (by omega)
  have hfirst := congrArg List.head? hkeep
  revert hfirst
  simp [Virtq.storeAvailEvent, Memory.slice, Memory.store, usedElemSize, Memory.leBytes, List.range_succ]

end Vlog.Vhost
